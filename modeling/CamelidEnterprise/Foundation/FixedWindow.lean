import Mathlib.Tactic.Common

/-!
# Fixed-window counters

A counter admits so many charges in every window of a fixed length. A window is not
aligned to anything: it opens with the first charge after the last one ended, which
is admitted. Time is a natural number and never goes back.

* `charge` — one charge of a counter that has a window or none, with `charge_cases`;
* `charge_congr` — of an old window it does not matter whether it is still there;
* `admitted_of_window` — a window admits no more than the limit;
* `admitted_of_interval` — an interval as long as a window meets two of them at most,
  and if it meets two, it misses the charge that opened the first.
-/

namespace Foundation

/-- A limit, and the length of a window. -/
structure FixedWindow where
  limit : Nat
  length : Nat
  limit_pos : 0 < limit
  length_pos : 0 < length

/-- A window: when it opened and what it has admitted. -/
structure Window where
  startedAt : Nat
  count : Nat
deriving DecidableEq, Repr

/-- A charge that was made: when, in which window, and whether it was admitted or how
long it was told to wait. -/
structure Charge where
  now : Nat
  verdict : Except Nat Unit
  startedAt : Nat

def Charge.admitted (c : Charge) : Bool :=
  match c.verdict with
  | .ok () => true
  | .error _ => false

namespace FixedWindow

variable {F : FixedWindow}

/-- The window, if it has not ended. -/
def live (F : FixedWindow) (now : Nat) (window : Option Window) : Option Window :=
  window.filter fun w => decide (now < w.startedAt + F.length)

/-- One charge: the verdict and the window it was made in. -/
def charge (F : FixedWindow) (now : Nat) (window : Option Window) : Except Nat Unit × Window :=
  match F.live now window with
  | none => (.ok (), ⟨now, 1⟩)
  | some w =>
    if w.count < F.limit then (.ok (), { w with count := w.count + 1 })
    else (.error (F.length - (now - w.startedAt)), w)

/-- Charges at these instants. -/
def run (F : FixedWindow) : Option Window → List Nat → List Charge
  | _, [] => []
  | window, now :: later =>
    ⟨now, (F.charge now window).1, (F.charge now window).2.startedAt⟩ ::
      F.run (some (F.charge now window).2) later

/-- How many charges were admitted from `a` on and before `b`. -/
def admitted (charges : List Charge) (a b : Nat) : Nat :=
  charges.countP fun c => c.admitted && decide (a ≤ c.now) && decide (c.now < b)

-- ---------------------------------------------------------------------------
-- One charge
-- ---------------------------------------------------------------------------

theorem live_none (now : Nat) : F.live now none = none := rfl

theorem live_of_lt {now : Nat} {w : Window} (h : now < w.startedAt + F.length) :
    F.live now (some w) = some w := by
  unfold live
  rw [Option.filter_some, if_pos (decide_eq_true h)]

theorem live_of_le {now : Nat} {w : Window} (h : w.startedAt + F.length ≤ now) :
    F.live now (some w) = none := by
  unfold live
  rw [Option.filter_some, if_neg (by simpa using h)]

/-- What is left of a window later is left of what is left of it now. -/
theorem live_live {now later : Nat} (h : now ≤ later) (window : Option Window) :
    F.live later (F.live now window) = F.live later window := by
  cases window with
  | none => rfl
  | some w =>
    rcases Nat.lt_or_ge now (w.startedAt + F.length) with hlt | hge
    · rw [live_of_lt hlt]
    · rw [live_of_le hge, live_of_le (Nat.le_trans hge h), live_none]

theorem charge_congr {now : Nat} {window window' : Option Window}
    (h : F.live now window = F.live now window') : F.charge now window = F.charge now window' := by
  unfold charge
  rw [h]

/-- A charge is admitted in the window there is, refused in it, or opens a new one. -/
theorem charge_cases (now : Nat) (window : Option Window) :
    (∃ w, window = some w ∧ now < w.startedAt + F.length ∧ w.count < F.limit ∧
      F.charge now window = (.ok (), { w with count := w.count + 1 })) ∨
    (∃ w, window = some w ∧ now < w.startedAt + F.length ∧ F.limit ≤ w.count ∧
      F.charge now window = (.error (F.length - (now - w.startedAt)), w)) ∨
    (∀ w, window = some w → w.startedAt + F.length ≤ now) ∧
      F.charge now window = (.ok (), ⟨now, 1⟩) := by
  cases window with
  | none => exact .inr (.inr ⟨fun _ h => absurd h.symm (Option.some_ne_none _), rfl⟩)
  | some w =>
    rcases Nat.lt_or_ge now (w.startedAt + F.length) with hlt | hge
    · unfold charge
      rw [live_of_lt hlt]
      dsimp only
      split
      · rename_i hcount
        exact .inl ⟨w, rfl, hlt, hcount, rfl⟩
      · rename_i hcount
        exact .inr (.inl ⟨w, rfl, hlt, Nat.le_of_not_lt hcount, rfl⟩)
    · unfold charge
      rw [live_of_le hge]
      exact .inr (.inr ⟨fun w' h => Option.some.inj h ▸ hge, rfl⟩)

/-- A charge that comes when it was told to is admitted. -/
theorem charge_after_wait {now later wait : Nat} {window : Option Window}
    (hpast : ∀ w, window = some w → w.startedAt ≤ now)
    (hrefused : (F.charge now window).1 = .error wait) (hlater : now + wait ≤ later) :
    (F.charge later window).1 = .ok () := by
  rcases F.charge_cases now window with ⟨w, -, -, -, hcharge⟩ | ⟨w, rfl, hlive, hcount, hcharge⟩ |
    ⟨-, hcharge⟩
  · rw [hcharge] at hrefused
    cases hrefused
  · rw [hcharge] at hrefused
    obtain rfl := Except.error.inj hrefused
    have hstart := hpast w rfl
    unfold charge
    rw [live_of_le (by omega)]
  · rw [hcharge] at hrefused
    cases hrefused

/-- The window of a charge is open when it is made, and has the count of a charge. -/
theorem charge_window (now : Nat) (window : Option Window)
    (hpast : ∀ w, window = some w → w.startedAt ≤ now ∧ 1 ≤ w.count ∧ w.count ≤ F.limit) :
    (F.charge now window).2.startedAt ≤ now ∧
      now < (F.charge now window).2.startedAt + F.length ∧
      1 ≤ (F.charge now window).2.count ∧ (F.charge now window).2.count ≤ F.limit := by
  have hlimit := F.limit_pos
  have hlength := F.length_pos
  rcases F.charge_cases now window with ⟨w, hw, hlive, hcount, hcharge⟩ |
    ⟨w, hw, hlive, hcount, hcharge⟩ | ⟨-, hcharge⟩
  · obtain ⟨hstart, hone, hmost⟩ := hpast w hw
    rw [hcharge]
    dsimp only
    omega
  · obtain ⟨hstart, hone, hmost⟩ := hpast w hw
    rw [hcharge]
    dsimp only
    omega
  · rw [hcharge]
    dsimp only
    omega

-- ---------------------------------------------------------------------------
-- Counting
-- ---------------------------------------------------------------------------

theorem admitted_cons (c : Charge) (charges : List Charge) (a b : Nat) :
    admitted (c :: charges) a b =
      admitted charges a b + if c.admitted && decide (a ≤ c.now) && decide (c.now < b) then 1 else 0 :=
  List.countP_cons

/-- A charge outside an interval does not count in it. -/
theorem admitted_cons_outside {c : Charge} {charges : List Charge} {a b : Nat}
    (h : c.now < a ∨ b ≤ c.now) : admitted (c :: charges) a b = admitted charges a b := by
  rw [admitted_cons, if_neg, Nat.add_zero]
  simp only [Bool.and_eq_true, decide_eq_true_eq, not_and]
  omega

theorem admitted_cons_refused {c : Charge} {charges : List Charge} {a b : Nat}
    (h : c.admitted = false) : admitted (c :: charges) a b = admitted charges a b := by
  rw [admitted_cons, h]
  rfl

theorem admitted_cons_le (c : Charge) (charges : List Charge) (a b : Nat) :
    admitted (c :: charges) a b ≤ admitted charges a b + 1 := by
  rw [admitted_cons]
  split
  · exact Nat.le_refl _
  · exact Nat.le_succ _

theorem admitted_eq_zero {charges : List Charge} {a b : Nat}
    (h : ∀ c ∈ charges, b ≤ c.now) : admitted charges a b = 0 := by
  refine List.countP_eq_zero.mpr fun c hc => ?_
  have hafter := h c hc
  simp only [Bool.and_eq_true, decide_eq_true_eq, not_and]
  omega

/-- The charges of a run are made at its instants. -/
theorem now_of_mem_run {window : Option Window} {instants : List Nat} {c : Charge}
    (hc : c ∈ F.run window instants) : c.now ∈ instants := by
  induction instants generalizing window with
  | nil => cases hc
  | cons now later ih =>
    rcases List.mem_cons.mp hc with rfl | hc
    · exact List.mem_cons_self
    · exact List.mem_cons_of_mem _ (ih hc)

/-- From an interval that begins no earlier than a window and ends no later, the
window has left what it has not admitted yet. -/
theorem admitted_of_open {instants : List Nat} :
    ∀ {w : Window}, instants.Pairwise (· ≤ ·) → w.count ≤ F.limit → ∀ {a b : Nat},
      b ≤ w.startedAt + F.length → admitted (F.run (some w) instants) a b + w.count ≤ F.limit := by
  induction instants with
  | nil =>
    intro w _ hcount a b _
    show 0 + w.count ≤ F.limit
    omega
  | cons now later ih =>
    intro w hsorted hcount a b hb
    obtain ⟨hfirst, hlater⟩ := List.pairwise_cons.mp hsorted
    show admitted (⟨now, _, _⟩ :: F.run _ later) a b + w.count ≤ F.limit
    rcases F.charge_cases now (some w) with ⟨w', hw, hlive, hbelow, hcharge⟩ |
      ⟨w', hw, hlive, hspent, hcharge⟩ | ⟨hended, hcharge⟩
    · obtain rfl := Option.some.inj hw
      rw [hcharge]
      have hrest := ih (w := { w with count := w.count + 1 }) hlater hbelow (a := a) hb
      have hstep := admitted_cons_le ⟨now, .ok (), w.startedAt⟩
        (F.run (some { w with count := w.count + 1 }) later) a b
      dsimp only at hrest hstep ⊢
      omega
    · obtain rfl := Option.some.inj hw
      rw [hcharge, admitted_cons_refused rfl]
      exact ih hlater hcount hb
    · -- the window has ended, and every later charge is after the interval
      have hover := hended w rfl
      rw [hcharge, admitted_cons_outside (.inr (Nat.le_trans hb hover)),
        admitted_eq_zero fun c hc =>
          Nat.le_trans hb (Nat.le_trans hover (hfirst _ (now_of_mem_run hc)))]
      omega

/-- Once the interval has begun, the window there is and one more are all it meets. -/
theorem admitted_after {instants : List Nat} {a : Nat} :
    ∀ {w : Window}, instants.Pairwise (· ≤ ·) → (∀ now ∈ instants, a ≤ now) → w.count ≤ F.limit →
      admitted (F.run (some w) instants) a (a + F.length) + w.count ≤ 2 * F.limit := by
  induction instants with
  | nil =>
    intro w _ _ hcount
    show 0 + w.count ≤ _
    omega
  | cons now later ih =>
    intro w hsorted hbegun hcount
    obtain ⟨hfirst, hlater⟩ := List.pairwise_cons.mp hsorted
    have hbegun' : ∀ t ∈ later, a ≤ t := fun t ht => hbegun t (List.mem_cons_of_mem _ ht)
    have hnow := hbegun now List.mem_cons_self
    show admitted (⟨now, _, _⟩ :: F.run _ later) a (a + F.length) + w.count ≤ _
    rcases F.charge_cases now (some w) with ⟨w', hw, hlive, hbelow, hcharge⟩ |
      ⟨w', hw, hlive, hspent, hcharge⟩ | ⟨hended, hcharge⟩
    · obtain rfl := Option.some.inj hw
      rw [hcharge]
      have hrest := ih (w := { w with count := w.count + 1 }) hlater hbegun' hbelow
      have hstep := admitted_cons_le ⟨now, .ok (), w.startedAt⟩
        (F.run (some { w with count := w.count + 1 }) later) a (a + F.length)
      dsimp only at hrest hstep ⊢
      omega
    · obtain rfl := Option.some.inj hw
      rw [hcharge, admitted_cons_refused rfl]
      exact ih hlater hbegun' hcount
    · -- a window that opens inside the interval lasts to its end
      rw [hcharge]
      have hrest := F.admitted_of_open (w := ⟨now, 1⟩) hlater F.limit_pos (a := a)
        (show a + F.length ≤ now + F.length by omega)
      have hstep := admitted_cons_le ⟨now, .ok (), now⟩ (F.run (some ⟨now, 1⟩) later) a (a + F.length)
      dsimp only at hrest hstep ⊢
      omega

/-- What a counter may have when charges are still to come. -/
def Sound (F : FixedWindow) (window : Option Window) (instants : List Nat) : Prop :=
  ∀ w, window = some w →
    (∀ now ∈ instants, w.startedAt ≤ now) ∧ 1 ≤ w.count ∧ w.count ≤ F.limit

theorem sound_none (instants : List Nat) : F.Sound none instants := fun _ h => by cases h

theorem Sound.charge {window : Option Window} {now : Nat} {later : List Nat}
    (hsound : F.Sound window (now :: later)) (hfirst : ∀ t ∈ later, now ≤ t) :
    F.Sound (some (F.charge now window).2) later := by
  obtain ⟨hstart, -, hone, hmost⟩ := F.charge_window now window
    fun w hw => ⟨(hsound w hw).1 now List.mem_cons_self, (hsound w hw).2⟩
  intro w hw
  obtain rfl := Option.some.inj hw
  exact ⟨fun t ht => Nat.le_trans hstart (hfirst t ht), hone, hmost⟩

/-- **An interval as long as a window** admits less than twice the limit. -/
theorem admitted_of_interval {instants : List Nat} (a : Nat) :
    ∀ {window : Option Window}, instants.Pairwise (· ≤ ·) → F.Sound window instants →
      admitted (F.run window instants) a (a + F.length) ≤ 2 * F.limit - 1 := by
  induction instants with
  | nil =>
    intro window _ _
    exact Nat.zero_le _
  | cons now later ih =>
    intro window hsorted hsound
    obtain ⟨hfirst, hlater⟩ := List.pairwise_cons.mp hsorted
    rcases Nat.lt_or_ge now a with hbefore | hbegun
    · show admitted (⟨now, _, _⟩ :: F.run _ later) a (a + F.length) ≤ _
      rw [admitted_cons_outside (.inl hbefore)]
      exact ih hlater (hsound.charge hfirst)
    · have hall : ∀ t ∈ now :: later, a ≤ t := by
        intro t ht
        rcases List.mem_cons.mp ht with rfl | ht
        · exact hbegun
        · exact Nat.le_trans hbegun (hfirst t ht)
      cases window with
      | none =>
        show admitted (⟨now, .ok (), now⟩ :: F.run (some ⟨now, 1⟩) later) a (a + F.length) ≤ _
        have hrest := F.admitted_after (w := ⟨now, 1⟩) hlater
          (fun t ht => hall t (List.mem_cons_of_mem _ ht)) F.limit_pos
        have hopen := F.admitted_of_open (w := ⟨now, 1⟩) hlater F.limit_pos (a := a)
          (show a + F.length ≤ now + F.length by omega)
        have hstep := admitted_cons_le ⟨now, .ok (), now⟩ (F.run (some ⟨now, 1⟩) later) a
          (a + F.length)
        have hlimit := F.limit_pos
        dsimp only at hopen
        omega
      | some w =>
        obtain ⟨-, hone, hmost⟩ := hsound w rfl
        have hafter := F.admitted_after hsorted hall hmost
        omega

/-- A later charge is made in the same window, or in one that opens after it ended. -/
theorem startedAt_of_mem_run {instants : List Nat} :
    ∀ {w : Window}, instants.Pairwise (· ≤ ·) → ∀ {c : Charge}, c ∈ F.run (some w) instants →
      c.startedAt = w.startedAt ∨ w.startedAt + F.length ≤ c.startedAt := by
  induction instants with
  | nil =>
    intro w _ c hc
    cases hc
  | cons now later ih =>
    intro w hsorted c hc
    obtain ⟨hfirst, hlater⟩ := List.pairwise_cons.mp hsorted
    rcases F.charge_cases now (some w) with ⟨w', hw, hlive, hbelow, hcharge⟩ |
      ⟨w', hw, hlive, hspent, hcharge⟩ | ⟨hended, hcharge⟩
    · obtain rfl := Option.some.inj hw
      rcases List.mem_cons.mp hc with rfl | hc
      · left
        rw [hcharge]
      · rw [hcharge] at hc
        exact ih (w := { w with count := w.count + 1 }) hlater hc
    · obtain rfl := Option.some.inj hw
      rcases List.mem_cons.mp hc with rfl | hc
      · left
        rw [hcharge]
      · rw [hcharge] at hc
        exact ih hlater hc
    · have hover := hended w rfl
      rcases List.mem_cons.mp hc with rfl | hc
      · right
        rw [hcharge]
        exact hover
      · right
        rw [hcharge] at hc
        rcases ih (w := ⟨now, 1⟩) hlater hc with h | h
        · rw [h]
          exact hover
        · exact Nat.le_trans hover (Nat.le_trans (Nat.le_add_right _ _) h)

/-- **A window** admits no more than the limit, and every charge is made in an open one. -/
theorem admitted_of_window {instants : List Nat} :
    ∀ {window : Option Window}, instants.Pairwise (· ≤ ·) → F.Sound window instants →
      ∀ c ∈ F.run window instants, c.startedAt ≤ c.now ∧ c.now < c.startedAt + F.length ∧
        admitted (F.run window instants) c.startedAt (c.startedAt + F.length) ≤ F.limit := by
  induction instants with
  | nil =>
    intro window _ _ c hc
    cases hc
  | cons now later ih =>
    intro window hsorted hsound c hc
    obtain ⟨hfirst, hlater⟩ := List.pairwise_cons.mp hsorted
    have hlimit := F.limit_pos
    obtain ⟨hstart, hopen, hone, hmost⟩ := F.charge_window now window
      fun w hw => ⟨(hsound w hw).1 now List.mem_cons_self, (hsound w hw).2⟩
    -- what the window of this charge admits, over the whole run
    have hcurrent : admitted (F.run window (now :: later)) (F.charge now window).2.startedAt
        ((F.charge now window).2.startedAt + F.length) ≤ F.limit := by
      rcases F.charge_cases now window with ⟨w, rfl, hlive, hbelow, hcharge⟩ |
        ⟨w, rfl, hlive, hspent, hcharge⟩ | ⟨hended, hcharge⟩
      · rw [hcharge]
        have hall := F.admitted_of_open hsorted (Nat.le_of_lt hbelow) (a := w.startedAt)
          (Nat.le_refl (w.startedAt + F.length))
        dsimp only
        omega
      · rw [hcharge]
        have hall := F.admitted_of_open hsorted (hsound w rfl).2.2 (a := w.startedAt)
          (Nat.le_refl (w.startedAt + F.length))
        dsimp only
        omega
      · show admitted (⟨now, _, _⟩ :: F.run _ later) _ _ ≤ _
        rw [hcharge]
        have hrest := F.admitted_of_open (w := ⟨now, 1⟩) hlater hlimit (a := now)
          (Nat.le_refl (now + F.length))
        have hstep := admitted_cons_le ⟨now, .ok (), now⟩ (F.run (some ⟨now, 1⟩) later) now
          (now + F.length)
        dsimp only at hrest hstep ⊢
        omega
    rcases List.mem_cons.mp hc with rfl | hc
    · exact ⟨hstart, hopen, hcurrent⟩
    · obtain ⟨hstart', hopen', hbound⟩ := ih hlater (hsound.charge hfirst) c hc
      refine ⟨hstart', hopen', ?_⟩
      rcases F.startedAt_of_mem_run hlater hc with hsame | hnext
      · rw [hsame]
        exact hcurrent
      · -- a window that opens later has nothing of this charge
        show admitted (⟨now, _, _⟩ :: F.run _ later) _ _ ≤ _
        rw [admitted_cons_outside (.inl (Nat.lt_of_lt_of_le hopen hnext))]
        exact hbound

end FixedWindow

end Foundation
