import CamelidEnterprise.Identity.StoreRun

/-!
# Camelid Enterprise — the span of a renewed token

Chains of `rotate_token` with the preserved lifetime, in a run of the identity store. A rotation
reads the clock three times: for the expiry of the old token, for the instant the new lifetime
counts from, and for `created_at_unix`.

* `preserved_span_iff` — every replacement of a chain keeps the span of the original token
  exactly where the clock stands still between the last two readings of each rotation, and no
  instant saturates.
-/

namespace CamelidEnterprise.Identity

open Foundation

-- ---------------------------------------------------------------------------
-- Spans
-- ---------------------------------------------------------------------------

/-- From the creation of a credential to its expiry. -/
def Credential.span (c : Credential) : Option Int := c.expiresAtUnix.map (· - c.createdAtUnix)

/-- The span of a token's row. -/
def lifetimeSpan (hashToken : Str → Str) (db : Database) (token : Str) : Option Int :=
  db.credential hashToken token >>= Credential.span

/-- The readings of a rotation leave a span as it is. -/
def Steady (w : World) (span : Int) : Prop :=
  w.clock 1 = w.clock 2 ∧ span < 2 ^ 63 ∧ w.clock 1 + span < 2 ^ 63

/-- The clock does not go back, and is an `i64`; no call reads it more than three times. -/
structure ClockAdvances (calls : List Call) : Prop where
  bounds : ∀ call ∈ calls, ∀ i < 3, -2 ^ 63 ≤ call.world.clock i ∧ call.world.clock i < 2 ^ 63
  within : ∀ call ∈ calls, ∀ j < 3, ∀ i ≤ j, call.world.clock i ≤ call.world.clock j
  across : calls.Pairwise fun call call' => ∀ i < 3, ∀ j < 3,
    call.world.clock i ≤ call'.world.clock j

theorem ClockAdvances.front {front back : List Call} (h : ClockAdvances (front ++ back)) :
    ClockAdvances front where
  bounds call hcall := h.bounds call (List.mem_append_left _ hcall)
  within call hcall := h.within call (List.mem_append_left _ hcall)
  across := (List.pairwise_append.mp h.across).1

/-- A rotation of a live token keeps its span where the readings leave it as it is. -/
theorem rotated_span_iff {c : Credential} {w : World} {span : Int} (hspan : c.span = some span)
    (hlive : expired c.expiresAtUnix (w.clock 0) = false) (hcreated : c.createdAtUnix ≤ w.clock 0)
    (hinsert : w.clock 1 ≤ w.clock 2) (hbounds : -2 ^ 63 ≤ w.clock 1 ∧ w.clock 1 < 2 ^ 63) :
    (c.rotated .Preserved w).span = some span ↔ Steady w span := by
  rcases hexpires : c.expiresAtUnix with _ | expiresAt
  · rw [Credential.span, hexpires] at hspan
    exact absurd hspan (by simp)
  · rw [hexpires] at hlive
    have hpositive : w.clock 0 < expiresAt := by simpa [expired] using hlive
    have hdiff : expiresAt - c.createdAtUnix = span := by
      rw [Credential.span, hexpires] at hspan
      exact Option.some.inj hspan
    have hrotated : (c.rotated .Preserved w).span =
        some (saturate (w.clock 1 + saturate span) - w.clock 2) := by
      unfold Credential.rotated Credential.span
      simp only [hexpires, hdiff]
      rfl
    rw [hrotated, Option.some.injEq]
    unfold saturate Steady
    omega

-- ---------------------------------------------------------------------------
-- Chains of rotations
-- ---------------------------------------------------------------------------

/-- A replacement, and the rotation that minted it. -/
structure Renewal where
  step : Step
  token : Str
  credential : Credential

/-- A history that ends with a token minted, or with the last of a chain of rotations of it
that preserve the lifetime. -/
inductive Chain (original : Str) (c₀ : Credential) :
    List Step → Str → Credential → List Renewal → Prop
  | minted {h : List Step} (hminted : Minted h original c₀) : Chain original c₀ h original c₀ []
  | renewed {h₁ h₂ : List Step} {e : Step} {old token : Str} {c : Credential}
      {renewals : List Renewal} (hchain : Chain original c₀ h₁ old c renewals)
      (hkept : ∀ e' ∈ h₂, ¬Ends e' old c)
      (hcall : e.action.operation = .rotateToken old .Preserved)
      (hresult : e.result = .ok (.token token)) :
      Chain original c₀ (h₁ ++ h₂ ++ [e]) token (c.rotated .Preserved e.action.world)
        (renewals ++ [⟨e, token, c.rotated .Preserved e.action.world⟩])

section Chains

variable {hashToken : Str → Str} {original token : Str} {c₀ c : Credential} {h : List Step}
  {renewals : List Renewal}

theorem Chain.isMinted (hchain : Chain original c₀ h token c renewals) : Minted h token c := by
  induction hchain with
  | minted hminted => exact hminted
  | renewed _ hkept hcall hresult ih => exact .rotateToken ih hkept hcall hresult

/-- The token a chain ends with is its last replacement. -/
theorem Chain.last_span (hchain : Chain original c₀ h token c renewals) {span : Option Int}
    (hspan : c₀.span = span) (hall : ∀ r ∈ renewals, r.credential.span = span) : c.span = span := by
  cases hchain with
  | minted => exact hspan
  | renewed => exact hall _ (List.mem_append_right _ (List.mem_singleton_self _))

/-- A credential was created at a reading of the call that minted it. -/
theorem created_reading (hminted : Minted h token c) :
    ∃ front e, h = front ++ [e] ∧ ∃ i < 3, c.createdAtUnix = e.action.world.clock i := by
  cases hminted with
  | issueToken => exact ⟨_, _, rfl, 0, by decide, rfl⟩
  | issueTokenForOrganization => exact ⟨_, _, rfl, 0, by decide, rfl⟩
  | @rotateToken _ _ e _ _ c lifetime =>
    refine ⟨_, e, rfl, ?_⟩
    unfold Credential.rotated
    split
    · exact ⟨1, by decide, rfl⟩
    · exact ⟨1, by decide, rfl⟩
    · exact ⟨2, by decide, rfl⟩

/-- Every replacement of a chain is stored as its credential. -/
theorem Chain.stored (hinjective : Function.Injective hashToken)
    (hchain : Chain original c₀ h token c renewals) {db : Database}
    (run : (store hashToken).Run h db) :
    ∀ r ∈ renewals, r.step.after.credential hashToken r.token = some r.credential := by
  induction hchain generalizing db with
  | minted => exact fun _ hr => absurd hr (by simp)
  | @renewed h₁ h₂ e old token c renewals hchain hkept hcall hresult ih =>
    intro r hr
    rcases List.mem_append.mp hr with hr | hr
    · obtain ⟨db₁, run₁⟩ := run.front (List.append_assoc h₁ h₂ [e])
      exact ih run₁ r hr
    · obtain rfl := List.mem_singleton.mp hr
      have agrees := run_agrees hinjective (run.through rfl)
      rw [credential_eq_some, agrees.rows]
      exact ⟨_, [], (List.append_nil _).symm,
        (Chain.renewed hchain hkept hcall hresult).isMinted, fun _ he => absurd he (by simp)⟩

/-- What a rotation of a chain finds: the token of the chain so far, still live. -/
theorem Chain.live (hinjective : Function.Injective hashToken) {h₁ h₂ : List Step} {e : Step}
    {old replacement : Str} (hchain : Chain original c₀ h₁ old c renewals)
    (hkept : ∀ e' ∈ h₂, ¬Ends e' old c)
    (hcall : e.action.operation = .rotateToken old .Preserved)
    (hresult : e.result = .ok (.token replacement)) {db : Database}
    (run : (store hashToken).Run (h₁ ++ h₂ ++ [e]) db) :
    expired c.expiresAtUnix (e.action.world.clock 0) = false := by
  obtain ⟨hfront, hstep⟩ := run.split (show h₁ ++ h₂ ++ [e] = (h₁ ++ h₂) ++ e :: [] from rfl)
  obtain ⟨c', hstanding, hlive⟩ := rotated_standing hinjective hfront hstep hcall hresult
  have agrees := run_agrees hinjective hfront
  -- the row of a token is one credential
  have hsame : c'.row (hashToken old) = c.row (hashToken old) :=
    Option.some.inj (((agrees.rows old c').mpr hstanding).symm.trans
      ((agrees.rows old c).mpr ⟨h₁, h₂, rfl, hchain.isMinted, hkept⟩))
  rw [← row_inj.mp hsame]
  exact hlive

theorem Chain.spans_iff (hinjective : Function.Injective hashToken)
    (hchain : Chain original c₀ h token c renewals) {db : Database}
    (run : (store hashToken).Run h db) (hclock : ClockAdvances (h.map Entry.action)) {span : Int}
    (hspan : c₀.span = some span) :
    (∀ r ∈ renewals, r.credential.span = some span) ↔
      ∀ r ∈ renewals, Steady r.step.action.world span := by
  induction hchain generalizing db with
  | minted => simp
  | @renewed h₁ h₂ e old token c renewals hchain hkept hcall hresult ih =>
    obtain ⟨db₁, run₁⟩ := run.front (List.append_assoc h₁ h₂ [e])
    have hearlier := ih run₁ (by
      rw [List.append_assoc, List.map_append] at hclock
      exact hclock.front)
    have hlive := hchain.live hinjective hkept hcall hresult run
    have hmem : e.action ∈ (h₁ ++ h₂ ++ [e]).map Entry.action := by simp
    have hcreated : c.createdAtUnix ≤ e.action.world.clock 0 := by
      obtain ⟨front, e', rfl, i, hi, hreading⟩ := created_reading hchain.isMinted
      rw [hreading]
      have hacross := hclock.across
      rw [List.map_append, List.pairwise_append] at hacross
      exact hacross.2.2 e'.action (by simp) e.action (by simp) i hi 0 (by decide)
    rw [List.forall_mem_append, List.forall_mem_append, List.forall_mem_singleton,
      List.forall_mem_singleton, ← hearlier]
    refine and_congr_right fun hall => ?_
    exact rotated_span_iff (hchain.last_span hspan hall) hlive hcreated
      (hclock.within _ hmem 2 (by decide) 1 (by decide)) (hclock.bounds _ hmem 1 (by decide))

/-- **When a chain of rotations keeps the span.** Every replacement has the span of the original
token exactly where in each rotation the clock reads the same for the new lifetime as for the
new row, and neither the span nor the new expiry saturates. -/
theorem preserved_span_iff (hinjective : Function.Injective hashToken) {db : Database}
    (run : (store hashToken).Run h db) (hclock : ClockAdvances (h.map Entry.action))
    {front back : List Step} (hcut : h = front ++ back) {span : Int} (hspan : c₀.span = some span)
    (hchain : Chain original c₀ front token c renewals) :
    (∀ r ∈ renewals, lifetimeSpan hashToken r.step.after r.token = some span) ↔
      ∀ r ∈ renewals, Steady r.step.action.world span := by
  obtain ⟨db₁, run₁⟩ := run.front hcut
  subst hcut
  rw [List.map_append] at hclock
  rw [← hchain.spans_iff hinjective run₁ hclock.front hspan]
  refine forall₂_congr fun r hr => ?_
  rw [lifetimeSpan, hchain.stored hinjective run₁ r hr]
  rfl

end Chains

-- ---------------------------------------------------------------------------
-- A rotation that takes a second
-- ---------------------------------------------------------------------------

/-- A token for an hour, rotated by a call that reads this clock. -/
def renewalCalls (clock : Nat → Int) : List Call :=
  [⟨.createUser "ada".toList, sampleWorld 100 0⟩,
    ⟨.issueToken samplePrincipal (.Until 3700), sampleWorld 100 1⟩,
    ⟨.rotateToken (sampleToken 1) .Preserved,
      ⟨clock, fun _ => none, fun _ => some fun _ => 2⟩⟩]

/-- The clock moves on by a second before the new row is put in. -/
def tickingClock (i : Nat) : Int := if i < 2 then 200 else 201

theorem actions_perform (hashToken : Str → Str) (calls : List Call) :
    (perform hashToken calls).1.map Entry.action = calls := by
  have hfold : ∀ (calls : List Call) (p : List Step × Database),
      (calls.foldl (fun p call =>
        (p.1 ++ [⟨p.2, call, (call.run hashToken p.2).1, (call.run hashToken p.2).2⟩],
          (call.run hashToken p.2).2)) p).1.map Entry.action =
        p.1.map Entry.action ++ calls := by
    intro calls
    induction calls with
    | nil => exact fun p => (List.append_nil _).symm
    | cons call calls ih =>
      intro p
      rw [List.foldl_cons, ih, List.map_append, List.append_assoc]
      rfl
  exact hfold calls ([], .empty)

/-- The credential of the token before its rotation. -/
def hourCredential : Credential :=
  ⟨samplePrincipal, ⟨"org_".toList ++ hexOf organizationBytes fun _ => 0⟩, 100, some 3700⟩

/-- The rotation ends a chain of one replacement, of a token issued for an hour. -/
theorem renewal_chain (clock : Nat → Int)
    (hresult : (perform sampleHash (renewalCalls clock)).1.getLast?.map Entry.result =
      some (.ok (.token (sampleToken 2)))) :
    ∃ e c, e.action.world.clock = clock ∧
      e.after = (perform sampleHash (renewalCalls clock)).2 ∧
      Chain (sampleToken 1) hourCredential (perform sampleHash (renewalCalls clock)).1
        (sampleToken 2) c [⟨e, sampleToken 2, c⟩] := by
  have hissued : (perform sampleHash ((renewalCalls clock).take 2)).2.tokens.find
      (sampleHash (sampleToken 1)) = some (hourCredential.row (sampleHash (sampleToken 1))) := by
    show (perform sampleHash [⟨.createUser "ada".toList, sampleWorld 100 0⟩,
      ⟨.issueToken samplePrincipal (.Until 3700), sampleWorld 100 1⟩]).2.tokens.find
        (sampleHash (sampleToken 1)) = _
    decide +kernel
  have agrees := run_agrees sampleHash_injective
    (run_perform sampleHash ((renewalCalls clock).take 2))
  obtain ⟨h₁, h₂, hcut, hminted, hkept⟩ := (agrees.rows _ _).mp hissued
  obtain ⟨e, hwhole, haction, hafter⟩ : ∃ e, (perform sampleHash (renewalCalls clock)).1 =
      (perform sampleHash ((renewalCalls clock).take 2)).1 ++ [e] ∧
      e.action = ⟨.rotateToken (sampleToken 1) .Preserved,
        ⟨clock, fun _ => none, fun _ => some fun _ => 2⟩⟩ ∧
      e.after = (perform sampleHash (renewalCalls clock)).2 := ⟨_, rfl, rfl, rfl⟩
  rw [hwhole, List.getLast?_append_cons] at hresult
  refine ⟨e, hourCredential.rotated .Preserved e.action.world, by rw [haction], hafter, ?_⟩
  rw [hwhole, hcut]
  exact .renewed (.minted hminted) hkept (by rw [haction]) (Option.some.inj hresult)

/-- With a clock that stands still the replacement is for an hour as well. -/
theorem preserved_span_standing :
    lifetimeSpan sampleHash (perform sampleHash (renewalCalls fun _ => 200)).2 (sampleToken 2) =
      some 3600 := by
  obtain ⟨e, c, hclock, hafter, hchain⟩ := renewal_chain (fun _ => 200) (by decide +kernel)
  rw [← hafter]
  refine (preserved_span_iff sampleHash_injective (run_perform _ _) ?_ (List.append_nil _).symm rfl
    hchain).mpr (fun r hr => ?_) _ (List.mem_singleton_self _)
  · rw [actions_perform]
    exact ⟨by decide, by decide, by decide⟩
  · obtain rfl := List.mem_singleton.mp hr
    show Steady e.action.world 3600
    unfold Steady
    rw [hclock]
    decide

/-- With a clock that moves on by a second it is for a second less. -/
theorem preserved_span_ticking :
    ¬∀ h db, (store sampleHash).Run h db → ClockAdvances (h.map Entry.action) →
      ∀ original c₀ token c renewals span, c₀.span = some span →
        Chain original c₀ h token c renewals →
          ∀ r ∈ renewals, lifetimeSpan sampleHash r.step.after r.token = some span := by
  intro hkeeps
  obtain ⟨e, c, -, hafter, hchain⟩ := renewal_chain tickingClock (by decide +kernel)
  have hkept := hkeeps _ _ (run_perform sampleHash (renewalCalls tickingClock))
    (by rw [actions_perform]; exact ⟨by decide, by decide, by decide⟩) _ _ _ _ _ 3600 rfl hchain _
    (List.mem_singleton_self _)
  have hstored : lifetimeSpan sampleHash (perform sampleHash (renewalCalls tickingClock)).2
      (sampleToken 2) = some 3599 := by decide +kernel
  rw [hafter, hstored] at hkept
  exact absurd hkept (by decide)

end CamelidEnterprise.Identity
