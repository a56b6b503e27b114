import Mathlib.Algebra.Ring.Nat
import Mathlib.Data.List.Induction
import Mathlib.Logic.Function.Basic
import CamelidEnterprise.Engine.Error
import CamelidEnterprise.Foundation.FixedWindow

/-!
# Camelid Enterprise — the in-process quota

`InProcessQuota` of `crates/gateway/src/lib.rs`: a map from organizations to windows
behind one lock. A call of an organization the map has not seen sweeps the windows
that have ended out of it.

Each organization has a fixed-window counter of its own (`chargesOf_run`): other
calls leave its window alone or drop it after it ended, and a window that ended is
as good as none. `org_quota` says what follows for a sequence of calls.

An instant is a number of nanoseconds, and so is a duration.
-/

namespace CamelidEnterprise.Gateway

open Foundation

/-- `InProcessQuota`, less its windows. -/
structure InProcessQuota where
  limit : Nat
  window : Nat
  limit_pos : 0 < limit
  limit_lt : limit < 2 ^ 32
  window_pos : 0 < window

/-- `InProcessQuota::new`: the window is a number of seconds. -/
def InProcessQuota.new (limit windowSeconds : Nat) (limit_pos : 0 < limit)
    (limit_lt : limit < 2 ^ 32) (window_pos : 0 < windowSeconds) : InProcessQuota where
  limit := limit
  window := windowSeconds * 10 ^ 9
  limit_pos := limit_pos
  limit_lt := limit_lt
  window_pos := by omega

/-- `OrgWindow` -/
abbrev OrgWindow := Window

/-- The map behind the lock. -/
abbrev Windows := Str → Option OrgWindow

/-- `InProcessQuota::new` has no windows. -/
def Windows.new : Windows := fun _ => none

/-- `retain` -/
def Windows.retain (windows : Windows) (keep : OrgWindow → Bool) : Windows := fun organization =>
  (windows organization).filter keep

namespace InProcessQuota

variable (quota : InProcessQuota)

/-- `admit_window`; a count stays below `u32::MAX`, as the limit does. -/
def admitWindow (entry : OrgWindow) (now : Nat) : Except Nat Unit × OrgWindow :=
  let entry : OrgWindow := if now - entry.startedAt ≥ quota.window then ⟨now, 0⟩ else entry
  if entry.count ≥ quota.limit then
    let elapsed := now - entry.startedAt
    (.error (quota.window - elapsed), entry)
  else (.ok (), { entry with count := entry.count + 1 })

/-- `admit`, from the reading of the clock on. -/
def admitAt (windows : Windows) (organization : Str) (now : Nat) : Except Nat Unit × Windows :=
  match windows organization with
  | some entry =>
    let (verdict, entry) := quota.admitWindow entry now
    (verdict, Function.update windows organization (some entry))
  | none =>
    let windows := windows.retain fun entry => now - entry.startedAt < quota.window
    let entry : OrgWindow := (windows organization).getD ⟨now, 0⟩
    let (verdict, entry) := quota.admitWindow entry now
    (verdict, Function.update windows organization (some entry))

/-- The counter of an organization. -/
def counter : FixedWindow := ⟨quota.limit, quota.window, quota.limit_pos, quota.window_pos⟩

end InProcessQuota

-- ---------------------------------------------------------------------------
-- One call
-- ---------------------------------------------------------------------------

section Call

variable {quota : InProcessQuota}

/-- A window that has ended is started over, one that has not goes on. -/
theorem admitWindow_eq (entry : OrgWindow) (now : Nat) :
    quota.admitWindow entry now = quota.counter.charge now (some entry) := by
  have hlimit := quota.limit_pos
  have hwindow := quota.window_pos
  unfold InProcessQuota.admitWindow FixedWindow.charge
  rcases Nat.lt_or_ge now (entry.startedAt + quota.window) with hlive | hended
  · rw [FixedWindow.live_of_lt (show now < entry.startedAt + quota.counter.length from hlive),
      if_neg (show ¬now - entry.startedAt ≥ quota.window by omega)]
    dsimp only
    by_cases hspent : entry.count ≥ quota.limit
    · rw [if_pos hspent, if_neg (show ¬entry.count < quota.counter.limit from Nat.not_lt.mpr hspent)]
      rfl
    · rw [if_neg hspent, if_pos (show entry.count < quota.counter.limit from Nat.lt_of_not_le hspent)]
  · rw [FixedWindow.live_of_le (show entry.startedAt + quota.counter.length ≤ now from hended),
      if_pos (show now - entry.startedAt ≥ quota.window by omega)]
    dsimp only
    rw [if_neg (show ¬0 ≥ quota.limit by omega)]

/-- A window that was just made is charged as none is. -/
theorem admitWindow_new (now : Nat) :
    quota.admitWindow ⟨now, 0⟩ now = quota.counter.charge now none := by
  have hlimit := quota.limit_pos
  have hwindow := quota.window_pos
  unfold InProcessQuota.admitWindow
  dsimp only
  rw [if_neg (show ¬now - now ≥ quota.window by omega), if_neg (show ¬0 ≥ quota.limit by omega)]
  rfl

/-- A sweep keeps what has not ended. -/
theorem retain_eq_live (windows : Windows) (now : Nat) (organization : Str) :
    windows.retain (fun entry => now - entry.startedAt < quota.window) organization =
      quota.counter.live now (windows organization) := by
  have hwindow := quota.window_pos
  unfold Windows.retain FixedWindow.live
  congr 1
  funext entry
  refine decide_eq_decide.mpr ?_
  show now - entry.startedAt < quota.window ↔ now < entry.startedAt + quota.window
  omega

/-- A call charges the counter of its organization, and of the other windows it drops
those that have ended, or none. -/
theorem admit_spec (quota : InProcessQuota) (windows : Windows) (organization : Str) (now : Nat) :
    (quota.admitAt windows organization now).1 =
        (quota.counter.charge now (windows organization)).1 ∧
      (quota.admitAt windows organization now).2 organization =
        some (quota.counter.charge now (windows organization)).2 ∧
      ∀ other, other ≠ organization →
        (quota.admitAt windows organization now).2 other = windows other ∨
          (quota.admitAt windows organization now).2 other = quota.counter.live now (windows other) := by
  unfold InProcessQuota.admitAt
  cases hentry : windows organization with
  | some entry =>
    dsimp only
    rw [admitWindow_eq, Function.update_self]
    exact ⟨rfl, rfl, fun other hother => .inl (Function.update_of_ne hother ..)⟩
  | none =>
    dsimp only
    rw [retain_eq_live, hentry, FixedWindow.live_none, Option.getD_none, admitWindow_new,
      Function.update_self]
    refine ⟨rfl, rfl, fun other hother => .inr ?_⟩
    rw [Function.update_of_ne hother, retain_eq_live]

/-- What is left of another organization's window is what was left of it. -/
theorem admit_other (windows : Windows) {organization other : Str} (hother : other ≠ organization)
    (now : Nat) :
    quota.counter.live now ((quota.admitAt windows organization now).2 other) =
      quota.counter.live now (windows other) := by
  rcases (admit_spec quota windows organization now).2.2 other hother with h | h
  · rw [h]
  · rw [h, FixedWindow.live_live (Nat.le_refl now)]

/-- A call that is refused changes nothing. -/
theorem admit_refused {windows : Windows} {organization : Str} {now wait : Nat}
    (h : (quota.admitAt windows organization now).1 = .error wait) :
    (quota.admitAt windows organization now).2 = windows := by
  have hspec := (admit_spec quota windows organization now).1
  rw [h] at hspec
  rcases quota.counter.charge_cases now (windows organization) with ⟨w, -, -, -, hcharge⟩ |
    ⟨entry, hentry, -, -, hcharge⟩ | ⟨-, hcharge⟩
  · rw [hcharge] at hspec
    cases hspec
  · unfold InProcessQuota.admitAt
    rw [hentry]
    dsimp only
    rw [admitWindow_eq, ← hentry, hcharge]
    show Function.update windows organization (some entry) = windows
    rw [← hentry, Function.update_eq_self]
  · rw [hcharge] at hspec
    cases hspec

end Call

-- ---------------------------------------------------------------------------
-- Sequences of calls
-- ---------------------------------------------------------------------------

/-- A call of `admit`: the organization and what the clock read. -/
structure AdmitCall where
  organization : Str
  now : Nat

/-- The clock does not go back. -/
def InOrder (calls : List AdmitCall) : Prop := calls.Pairwise fun c c' => c.now ≤ c'.now

namespace InProcessQuota

variable (quota : InProcessQuota)

/-- The windows after some calls. -/
def after (windows : Windows) (calls : List AdmitCall) : Windows :=
  calls.foldl (fun windows call => (quota.admitAt windows call.organization call.now).2) windows

/-- The calls and their verdicts, each with the window it was made in. -/
def run : Windows → List AdmitCall → List (Str × Charge)
  | _, [] => []
  | windows, call :: calls =>
    let (verdict, windows') := quota.admitAt windows call.organization call.now
    (call.organization, ⟨call.now, verdict, ((windows' call.organization).map Window.startedAt).getD 0⟩) ::
      run windows' calls

end InProcessQuota

/-- What an organization was charged. -/
def chargesOf (organization : Str) (events : List (Str × Charge)) : List Charge :=
  (events.filter fun event => decide (event.1 = organization)).map Prod.snd

/-- The calls of an organization. -/
def callsOf (organization : Str) (calls : List AdmitCall) : List AdmitCall :=
  calls.filter fun call => decide (call.organization = organization)

section Run

variable {quota : InProcessQuota}

theorem chargesOf_cons (organization : Str) (c : Charge) (events : List (Str × Charge)) :
    chargesOf organization ((organization, c) :: events) = c :: chargesOf organization events := by
  unfold chargesOf
  rw [List.filter_cons_of_pos (by simp)]
  rfl

theorem after_append (windows : Windows) (calls more : List AdmitCall) :
    quota.after windows (calls ++ more) = quota.after (quota.after windows calls) more :=
  List.foldl_append

/-- The charges of one organization are those of a counter of its own. -/
theorem chargesOf_run (organization : Str) {calls : List AdmitCall} :
    ∀ (windows : Windows) (window : Option Window), InOrder calls →
      (∀ call ∈ calls, quota.counter.live call.now (windows organization) =
        quota.counter.live call.now window) →
      chargesOf organization (quota.run windows calls) =
        quota.counter.run window ((callsOf organization calls).map AdmitCall.now) := by
  induction calls with
  | nil =>
    intro windows window _ _
    rfl
  | cons call calls ih =>
    intro windows window hordered hlive
    obtain ⟨hfirst, hordered'⟩ := List.pairwise_cons.mp hordered
    obtain ⟨hverdict, hentry, -⟩ := admit_spec quota windows call.organization call.now
    unfold InProcessQuota.run
    by_cases hown : call.organization = organization
    · subst hown
      have hcharge := FixedWindow.charge_congr (hlive call List.mem_cons_self)
      have hcalls : callsOf call.organization (call :: calls) =
          call :: callsOf call.organization calls := List.filter_cons_of_pos (by simp)
      rw [hcalls]
      dsimp only
      rw [hverdict, hentry, hcharge, chargesOf_cons]
      have hrest := ih (quota.admitAt windows call.organization call.now).2
        (some (quota.counter.charge call.now window).2) hordered'
        fun later _ => by rw [hentry, hcharge]
      rw [hrest]
      rfl
    · have hcalls : callsOf organization (call :: calls) = callsOf organization calls :=
        List.filter_cons_of_neg (by simpa using hown)
      have hskip : chargesOf organization (quota.run windows (call :: calls)) =
          chargesOf organization
            (quota.run (quota.admitAt windows call.organization call.now).2 calls) := by
        unfold chargesOf
        rw [InProcessQuota.run, List.filter_cons_of_neg (by simpa using hown)]
      rw [hcalls]
      refine hskip.trans (ih _ window hordered' fun later hlater => ?_)
      -- what others do to its window shows in nothing that is left of it later
      have hle := hfirst later hlater
      rw [← FixedWindow.live_live hle, admit_other windows (Ne.symm hown) call.now,
        FixedWindow.live_live hle]
      exact hlive later (List.mem_cons_of_mem _ hlater)

theorem ordered_callsOf {calls : List AdmitCall} (hordered : InOrder calls) (organization : Str) :
    ((callsOf organization calls).map AdmitCall.now).Pairwise (· ≤ ·) := by
  refine List.pairwise_map.mpr ?_
  exact hordered.sublist List.filter_sublist

/-- A window opened at the instant of a call that was made. -/
theorem startedAt_after {calls : List AdmitCall} {organization : Str} {entry : OrgWindow}
    (h : quota.after .new calls organization = some entry) :
    ∃ call ∈ calls, entry.startedAt = call.now := by
  induction calls using List.reverseRec generalizing organization entry with
  | nil => cases h
  | append_singleton calls call ih =>
    rw [after_append] at h
    have hstep : (quota.admitAt (quota.after .new calls) call.organization call.now).2 organization =
      some entry := h
    obtain ⟨-, hentry, hothers⟩ :=
      admit_spec quota (quota.after .new calls) call.organization call.now
    have hearlier : ∀ {entry : OrgWindow}, quota.after .new calls organization = some entry →
        ∃ call' ∈ calls ++ [call], entry.startedAt = call'.now := by
      intro entry hentry
      obtain ⟨call', hcall', hstart⟩ := ih hentry
      exact ⟨call', List.mem_append_left _ hcall', hstart⟩
    by_cases hown : organization = call.organization
    · subst hown
      rw [hentry] at hstep
      obtain rfl := Option.some.inj hstep
      rcases quota.counter.charge_cases call.now (quota.after .new calls call.organization) with
        ⟨w, hw, -, -, hcharge⟩ | ⟨w, hw, -, -, hcharge⟩ | ⟨-, hcharge⟩
      · obtain ⟨call', hcall', hstart⟩ := hearlier hw
        rw [hcharge]
        exact ⟨call', hcall', hstart⟩
      · rw [hcharge]
        exact hearlier hw
      · rw [hcharge]
        exact ⟨call, List.mem_append_right _ (List.mem_singleton.mpr rfl), rfl⟩
    · rcases hothers organization hown with h | h
      · rw [h] at hstep
        exact hearlier hstep
      · rw [h] at hstep
        exact hearlier (Option.filter_eq_some_iff.mp hstep).1

/-- Other organizations' calls leave what will be left of a window. -/
theorem live_after (windows : Windows) {organization : Str} {calls : List AdmitCall} {later : Nat}
    (hothers : ∀ call ∈ calls, call.organization ≠ organization)
    (hlater : ∀ call ∈ calls, call.now ≤ later) :
    quota.counter.live later (quota.after windows calls organization) =
      quota.counter.live later (windows organization) := by
  induction calls generalizing windows with
  | nil => rfl
  | cons call calls ih =>
    have hother := hothers call List.mem_cons_self
    have hle := hlater call List.mem_cons_self
    show quota.counter.live later
      (quota.after (quota.admitAt windows call.organization call.now).2 calls organization) = _
    rw [ih _ (fun c hc => hothers c (List.mem_cons_of_mem _ hc))
        (fun c hc => hlater c (List.mem_cons_of_mem _ hc)),
      ← FixedWindow.live_live hle, admit_other windows (Ne.symm hother) call.now,
      FixedWindow.live_live hle]

/-- The charges of an organization in a run of all are those of a counter of its own. -/
theorem chargesOf_run_new {calls : List AdmitCall} (hordered : InOrder calls) (organization : Str) :
    chargesOf organization (quota.run .new calls) =
      quota.counter.run none ((callsOf organization calls).map AdmitCall.now) :=
  chargesOf_run organization .new none hordered fun _ _ => rfl

theorem callsOf_callsOf (organization : Str) (calls : List AdmitCall) :
    callsOf organization (callsOf organization calls) = callsOf organization calls :=
  List.filter_eq_self.mpr fun _ hcall => (List.mem_filter.mp hcall).2

/-- **The in-process quota.** In a run of calls whose instants do not go back, every
call is made in an open window of its organization, which admits no more than the
limit, and any interval as long as a window admits less than twice the limit. A call
drops no other window that is open. What an organization is charged is what it would
be charged alone. And a call that is refused changes nothing, and made again after the
wait it was told, with none of its organization in between, it is admitted. -/
theorem org_quota (quota : InProcessQuota) {calls : List AdmitCall} (hordered : InOrder calls) :
    (∀ organization, ∀ c ∈ chargesOf organization (quota.run .new calls),
      c.startedAt ≤ c.now ∧ c.now < c.startedAt + quota.window ∧
        FixedWindow.admitted (chargesOf organization (quota.run .new calls)) c.startedAt
          (c.startedAt + quota.window) ≤ quota.limit) ∧
    (∀ organization a,
      FixedWindow.admitted (chargesOf organization (quota.run .new calls)) a (a + quota.window) ≤
        2 * quota.limit - 1) ∧
    (∀ front call back, calls = front ++ call :: back → ∀ other entry,
      other ≠ call.organization → quota.after .new front other = some entry →
        call.now < entry.startedAt + quota.window →
          quota.after .new (front ++ [call]) other = some entry) ∧
    (∀ organization, chargesOf organization (quota.run .new calls) =
      chargesOf organization (quota.run .new (callsOf organization calls))) ∧
    ∀ front call mid retry back, calls = front ++ call :: (mid ++ retry :: back) → ∀ wait,
      (quota.admitAt (quota.after .new front) call.organization call.now).1 = .error wait →
        quota.after .new (front ++ [call]) = quota.after .new front ∧
          (retry.organization = call.organization →
            (∀ other ∈ mid, other.organization ≠ call.organization) →
            call.now + wait ≤ retry.now →
              (quota.admitAt (quota.after .new (front ++ call :: mid)) retry.organization
                retry.now).1 = .ok ()) := by
  have hsound : ∀ organization, quota.counter.Sound none
      ((callsOf organization calls).map AdmitCall.now) := fun _ => FixedWindow.sound_none _
  have hsnoc : ∀ front call, quota.after .new (front ++ [call]) =
      (quota.admitAt (quota.after .new front) call.organization call.now).2 := fun front call =>
    after_append .new front [call]
  refine ⟨?_, ?_, ?_, ?_, ?_⟩
  · intro organization c hc
    rw [chargesOf_run_new hordered] at hc ⊢
    exact FixedWindow.admitted_of_window (ordered_callsOf hordered organization)
      (hsound organization) c hc
  · intro organization a
    rw [chargesOf_run_new hordered]
    exact FixedWindow.admitted_of_interval a (ordered_callsOf hordered organization)
      (hsound organization)
  · intro front call back _ other entry hother hentry hlive
    rw [hsnoc]
    -- the call of another organization leaves the entry, or sweeps it once it has expired
    rcases (admit_spec quota (quota.after .new front) call.organization call.now).2.2 other hother
      with h | h
    · rw [h, hentry]
    · rw [h, hentry, FixedWindow.live_of_lt hlive]
  · intro organization
    rw [chargesOf_run_new hordered,
      chargesOf_run_new (show InOrder (callsOf organization calls) from
        List.Pairwise.sublist List.filter_sublist hordered), callsOf_callsOf]
  · intro front call mid retry back hcalls wait hrefused
    have hkept := (hsnoc front call).trans (admit_refused hrefused)
    refine ⟨hkept, fun hsame hmid hwait => ?_⟩
    -- the refusal wrote nothing, so the retry sees what the calls between made of that state
    rw [hcalls] at hordered
    obtain ⟨-, htail, hcross⟩ := List.pairwise_append.mp hordered
    obtain ⟨-, htail'⟩ := List.pairwise_cons.mp htail
    obtain ⟨-, -, hmid'⟩ := List.pairwise_append.mp htail'
    have hstate : quota.after .new (front ++ call :: mid) =
        quota.after (quota.after .new front) mid := by
      rw [← List.singleton_append, ← List.append_assoc, after_append, hkept]
    -- which, as far as this organization goes, is what was live in it
    have hlive : quota.counter.live retry.now
        (quota.after (quota.after .new front) mid call.organization) =
          quota.counter.live retry.now (quota.after .new front call.organization) :=
      live_after _ hmid fun other hother => hmid' other hother retry List.mem_cons_self
    rw [(admit_spec quota _ retry.organization retry.now).1, hsame, hstate,
      FixedWindow.charge_congr hlive]
    refine FixedWindow.charge_after_wait ?_
      ((admit_spec quota _ call.organization call.now).1.symm.trans hrefused) hwait
    intro w hw
    obtain ⟨earlier, hearlier, hstart⟩ := startedAt_after hw
    rw [hstart]
    exact hcross earlier hearlier call List.mem_cons_self

/-- Two calls of one organization, one of another, and the first again after its wait. -/
def retriedCalls : List AdmitCall :=
  [⟨['a'], 5000000000⟩, ⟨['a'], 7000000000⟩, ⟨['b'], 9000000000⟩, ⟨['a'], 15000000000⟩]

def tenSeconds : InProcessQuota := .new 1 10 (by decide) (by decide) (by decide)

theorem org_quota_retried :
    (tenSeconds.admitAt (tenSeconds.after .new (retriedCalls.take 3)) ['a'] 15000000000).1 = .ok () ∧
      FixedWindow.admitted (chargesOf ['a'] (tenSeconds.run .new retriedCalls)) 5000000000
        (5000000000 + tenSeconds.window) ≤ 1 := by
  have hordered : InOrder retriedCalls := by
    show List.Pairwise _ _
    decide
  obtain ⟨-, hinterval, -, -, hretry⟩ := org_quota tenSeconds hordered
  refine ⟨?_, hinterval ['a'] 5000000000⟩
  exact (hretry [⟨['a'], 5000000000⟩] ⟨['a'], 7000000000⟩ [⟨['b'], 9000000000⟩]
    ⟨['a'], 15000000000⟩ [] rfl 8000000000 rfl).2 rfl (by decide) (by decide)

end Run

end CamelidEnterprise.Gateway
