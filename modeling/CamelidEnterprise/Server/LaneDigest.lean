import CamelidEnterprise.Foundation.Sha256
import CamelidEnterprise.Server.Lane

/-!
# Camelid Enterprise — the admission digest determines the policy

What `compute_admission_sha256` hashes has one line for each rule, under a tag that says what
kind of rule it is, and ends with the namespace. Where no name breaks a line, the text can be
read back: two policies are hashed from the same bytes exactly if they have the same rules in
the same order, and then they refuse the same names. Reasons are not hashed.

Key result: `computeAdmissionSha256_eq_iff`.
-/

namespace CamelidEnterprise.Lane

open Foundation Foundation.Utf8

/-- No name of a policy breaks its line. -/
structure Policy.Unbroken (policy : Policy) : Prop where
  permitted : ∀ permit ∈ policy.permitted, '\n' ∉ permit.rule.literal.toList
  refusedForeign : ∀ row ∈ policy.refusedForeign, '\n' ∉ row.1.toList

/-- The same rules in the same order, whatever the reasons. -/
structure SameRules (policy other : Policy) : Prop where
  permitted : policy.permitted.map Permit.rule = other.permitted.map Permit.rule
  refusedForeign : policy.refusedForeign.map Prod.fst = other.refusedForeign.map Prod.fst
  claimed : policy.claimed = other.claimed

-- ---------------------------------------------------------------------------
-- Reading lines back
-- ---------------------------------------------------------------------------

theorem encode_injective : Function.Injective encode := by
  intro text other h
  have hread := fromUtf8_eq_some.mpr (rfl : encode text = encode text)
  rw [h] at hread
  exact (Option.some.inj (hread.symm.trans (fromUtf8_eq_some.mpr rfl))).symm ▸ rfl

/-- A line is cut where it ends. -/
theorem line_unique {line line' rest rest' : Str} (hline : '\n' ∉ line) (hline' : '\n' ∉ line')
    (h : line ++ ['\n'] ++ rest = line' ++ ['\n'] ++ rest') : line = line' ∧ rest = rest' := by
  have hinside : ∀ {text : Str}, '\n' ∉ text → ¬['\n'] <:+: text := fun hnot hinside =>
    hnot (hinside.subset List.mem_cons_self)
  rw [List.append_assoc, List.append_assoc] at h
  exact Text.cut_unique List.not_mem_nil (hinside hline) (hinside hline') h

theorem head_ruleLine (rule : Match) (rest : Str) : (rule.line ++ rest).head? = some 'p' := by
  have htag : rule.digestTag.toList.head? = some 'p' := by
    cases rule with
    | Exact literal =>
      show "permit_exact=".toList.head? = some 'p'
      decide
    | Prefix literal =>
      show "permit_prefix=".toList.head? = some 'p'
      decide
  unfold Match.line
  rw [List.append_assoc, List.append_assoc, List.head?_append, htag]
  rfl

theorem head_foreignLine (name : String) (rest : Str) :
    (foreignLine name ++ rest).head? = some 'r' := by
  have htag : "refuse_foreign=".toList.head? = some 'r' := by decide
  unfold foreignLine
  rw [List.append_assoc, List.append_assoc, List.head?_append, htag]
  rfl

theorem head_namespace (claimed : Str) : ("namespace=".toList ++ claimed).head? = some 'n' := by
  have htag : "namespace=".toList.head? = some 'n' := by decide
  rw [List.head?_append, htag]
  rfl

/-- A rule is read from its line: the tags are different where the first of them ends. -/
theorem ruleLine_unique {rule rule' : Match} (hrule : '\n' ∉ rule.literal.toList)
    (hrule' : '\n' ∉ rule'.literal.toList) {rest rest' : Str}
    (h : rule.line ++ rest = rule'.line ++ rest') : rule = rule' ∧ rest = rest' := by
  unfold Match.line at h
  rw [List.append_assoc, List.append_assoc, List.append_assoc, List.append_assoc] at h
  have hsplit : ∀ {literal literal' : String}, '\n' ∉ literal.toList → '\n' ∉ literal'.toList →
      literal.toList ++ (['\n'] ++ rest) = literal'.toList ++ (['\n'] ++ rest') →
      literal = literal' ∧ rest = rest' := by
    intro literal literal' hliteral hliteral' hlines
    rw [← List.append_assoc, ← List.append_assoc] at hlines
    obtain ⟨hsame, hrest⟩ := line_unique hliteral hliteral' hlines
    exact ⟨String.toList_inj.mp hsame, hrest⟩
  cases rule with
  | Exact literal =>
    cases rule' with
    | Exact literal' =>
      obtain ⟨rfl, hrest⟩ := hsplit hrule hrule' (List.append_cancel_left h)
      exact ⟨rfl, hrest⟩
    | Prefix literal' => exact absurd h (by simp [Match.digestTag])
  | Prefix literal =>
    cases rule' with
    | Exact literal' => exact absurd h (by simp [Match.digestTag])
    | Prefix literal' =>
      obtain ⟨rfl, hrest⟩ := hsplit hrule hrule' (List.append_cancel_left h)
      exact ⟨rfl, hrest⟩

theorem foreignLine_unique {name name' : String} (hname : '\n' ∉ name.toList)
    (hname' : '\n' ∉ name'.toList) {rest rest' : Str}
    (h : foreignLine name ++ rest = foreignLine name' ++ rest') : name = name' ∧ rest = rest' := by
  unfold foreignLine at h
  simp only [List.append_assoc] at h
  have h := List.append_cancel_left h
  rw [← List.append_assoc, ← List.append_assoc] at h
  obtain ⟨hsame, hrest⟩ := line_unique hname hname' h
  exact ⟨String.toList_inj.mp hsame, hrest⟩

/-- The foreign names are read back, up to the line of the namespace. -/
theorem foreignLines_unique {rows rows' : List (String × String)}
    (hrows : ∀ row ∈ rows, '\n' ∉ row.1.toList) (hrows' : ∀ row ∈ rows', '\n' ∉ row.1.toList)
    {claimed claimed' : Str}
    (h : rows.flatMap (fun row => foreignLine row.1) ++ ("namespace=".toList ++ claimed) =
      rows'.flatMap (fun row => foreignLine row.1) ++ ("namespace=".toList ++ claimed')) :
    rows.map Prod.fst = rows'.map Prod.fst ∧ claimed = claimed' := by
  induction rows generalizing rows' with
  | nil =>
    cases rows' with
    | nil => exact ⟨rfl, List.append_cancel_left h⟩
    | cons row' rows' =>
      rw [List.flatMap_nil, List.nil_append, List.flatMap_cons, List.append_assoc] at h
      have hhead := congrArg List.head? h
      rw [head_namespace, head_foreignLine] at hhead
      exact absurd hhead (by decide)
  | cons row rows ih =>
    cases rows' with
    | nil =>
      rw [List.flatMap_nil, List.nil_append, List.flatMap_cons, List.append_assoc] at h
      have hhead := congrArg List.head? h
      rw [head_namespace, head_foreignLine] at hhead
      exact absurd hhead (by decide)
    | cons row' rows' =>
      rw [List.flatMap_cons, List.flatMap_cons, List.append_assoc, List.append_assoc] at h
      obtain ⟨hname, hrest⟩ := foreignLine_unique (hrows row List.mem_cons_self)
        (hrows' row' List.mem_cons_self) h
      obtain ⟨hnames, hclaimed⟩ := ih (fun r hr => hrows r (List.mem_cons_of_mem _ hr))
        (fun r hr => hrows' r (List.mem_cons_of_mem _ hr)) hrest
      exact ⟨by rw [List.map_cons, List.map_cons, hname, hnames], hclaimed⟩

/-- The rules are read back, up to the first line under another tag. -/
theorem ruleLines_unique {permits permits' : List Permit}
    (hpermits : ∀ permit ∈ permits, '\n' ∉ permit.rule.literal.toList)
    (hpermits' : ∀ permit ∈ permits', '\n' ∉ permit.rule.literal.toList) {rest rest' : Str}
    (hrest : rest.head? = some 'r' ∨ rest.head? = some 'n')
    (hrest' : rest'.head? = some 'r' ∨ rest'.head? = some 'n')
    (h : permits.flatMap (fun permit => permit.rule.line) ++ rest =
      permits'.flatMap (fun permit => permit.rule.line) ++ rest') :
    permits.map Permit.rule = permits'.map Permit.rule ∧ rest = rest' := by
  induction permits generalizing permits' with
  | nil =>
    cases permits' with
    | nil => exact ⟨rfl, h⟩
    | cons permit' permits' =>
      rw [List.flatMap_cons, List.flatMap_nil, List.nil_append, List.append_assoc] at h
      rw [h, head_ruleLine] at hrest
      exact absurd hrest (by decide)
  | cons permit permits ih =>
    cases permits' with
    | nil =>
      rw [List.flatMap_cons, List.flatMap_nil, List.nil_append, List.append_assoc] at h
      rw [← h, head_ruleLine] at hrest'
      exact absurd hrest' (by decide)
    | cons permit' permits' =>
      rw [List.flatMap_cons, List.flatMap_cons, List.append_assoc, List.append_assoc] at h
      obtain ⟨hrule, hmore⟩ := ruleLine_unique (hpermits permit List.mem_cons_self)
        (hpermits' permit' List.mem_cons_self) h
      obtain ⟨hrules, hlast⟩ := ih (fun p hp => hpermits p (List.mem_cons_of_mem _ hp))
        (fun p hp => hpermits' p (List.mem_cons_of_mem _ hp)) hmore
      exact ⟨by rw [List.map_cons, List.map_cons, hrule, hrules], hlast⟩

-- ---------------------------------------------------------------------------
-- Policies
-- ---------------------------------------------------------------------------

theorem map_flatMap_eq {α β γ : Type} {f : α → β} {g : β → List γ} {as bs : List α}
    (h : as.map f = bs.map f) : as.flatMap (fun a => g (f a)) = bs.flatMap fun a => g (f a) := by
  calc as.flatMap (fun a => g (f a)) = (as.map f).flatMap g := (List.flatMap_map f g as).symm
    _ = (bs.map f).flatMap g := by rw [h]
    _ = bs.flatMap fun a => g (f a) := List.flatMap_map f g bs

/-- The bytes that are hashed determine the rules. -/
theorem Policy.preimage_eq_iff {policy other : Policy} (hpolicy : policy.Unbroken)
    (hother : other.Unbroken) : policy.preimage = other.preimage ↔ SameRules policy other := by
  constructor
  · intro h
    have htext := encode_injective h
    have hstart : ∀ policy : Policy,
        (policy.refusedForeign.flatMap (fun row => foreignLine row.1) ++
          ("namespace=".toList ++ policy.claimed.toList)).head? = some 'r' ∨
        (policy.refusedForeign.flatMap (fun row => foreignLine row.1) ++
          ("namespace=".toList ++ policy.claimed.toList)).head? = some 'n' := by
      intro policy
      cases policy.refusedForeign with
      | nil => exact .inr (head_namespace _)
      | cons row rows =>
        rw [List.flatMap_cons, List.append_assoc]
        exact .inl (head_foreignLine _ _)
    obtain ⟨hrules, hforeign⟩ := ruleLines_unique hpolicy.permitted hother.permitted
      (hstart policy) (hstart other) htext
    obtain ⟨hnames, hclaimed⟩ := foreignLines_unique hpolicy.refusedForeign hother.refusedForeign
      hforeign
    exact ⟨hrules, hnames, String.toList_inj.mp hclaimed⟩
  · intro h
    unfold Policy.preimage
    rw [map_flatMap_eq (g := Match.line) h.permitted, map_flatMap_eq (g := foreignLine)
      h.refusedForeign, h.claimed]

/-- Rules decide what is refused, reasons do not. -/
theorem SameRules.refused_eq {policy other : Policy} (h : SameRules policy other)
    (platform : Platform) (name : Str) :
    policy.refused platform name = other.refused platform name := by
  have hpermitted : permittedBy platform policy.permitted name =
      permittedBy platform other.permitted name := by
    have hany : ∀ rules : List Permit, permittedBy platform rules name =
        (rules.map Permit.rule).any fun rule => ruleMatches platform rule name := fun rules => by
      rw [List.any_map]
      rfl
    rw [hany, hany, h.permitted]
  have hforeign : (policy.foreignRefusal platform name).isSome =
      (other.foreignRefusal platform name).isSome := by
    have hany : ∀ policy : Policy, (policy.foreignRefusal platform name).isSome =
        (policy.refusedForeign.map Prod.fst).any fun rule => nameEq platform name rule :=
      fun policy => by
        unfold Policy.foreignRefusal
        rw [Option.isSome_map, Bool.eq_iff_iff, List.find?_isSome, List.any_map, List.any_eq_true]
        rfl
    rw [hany, hany, h.refusedForeign]
  unfold Policy.refused Policy.inNamespace
  rw [hpermitted, hforeign, h.claimed]

/-- **The admission digest determines the policy.** Where the hash does not collide on the two
texts, two builds publish one digest exactly if their policies have the same rules in the same
order; and then the two refuse the same names. -/
theorem computeAdmissionSha256_eq_iff {build : Build} {policy other : Policy}
    (hpolicy : policy.Unbroken) (hother : other.Unbroken)
    (hcollision : build.sha256 policy.preimage = build.sha256 other.preimage →
      policy.preimage = other.preimage) :
    (computeAdmissionSha256 build policy = computeAdmissionSha256 build other ↔
        SameRules policy other) ∧
      (computeAdmissionSha256 build policy = computeAdmissionSha256 build other →
        ∀ platform name, policy.refused platform name = other.refused platform name) := by
  have hiff : computeAdmissionSha256 build policy = computeAdmissionSha256 build other ↔
      SameRules policy other := by
    rw [← Policy.preimage_eq_iff hpolicy hother]
    exact ⟨hcollision, fun h => congrArg build.sha256 h⟩
  exact ⟨hiff, fun h platform name => (hiff.mp h).refused_eq platform name⟩

/-- The policy with its namespace opened by one more row. -/
def openedPolicy : Policy :=
  { lanePolicy with permitted := lanePolicy.permitted ++ [⟨.Prefix "CAMELID_", "everything"⟩] }

theorem lanePolicy_unbroken : lanePolicy.Unbroken := ⟨by decide +kernel, by decide +kernel⟩

theorem openedPolicy_unbroken : openedPolicy.Unbroken := ⟨by decide +kernel, by decide +kernel⟩

/-- The build at the revision `Cargo.toml` pins. -/
def sampleBuild : Build where
  sha256 := Sha256.hexDigest
  enginePin := "b4e3a9056567ed8145fc4fa29850d6f1f261ac2b"

-- the two digests the tests of the source pin
example : computeConfigSha256 sampleBuild =
    "b62869e991172aadb0204c526ff41fd7486434320884bda323e36cff6e13b00d".toList := by decide +kernel

example : computeAdmissionSha256 sampleBuild lanePolicy =
    "318fb6d65c0fb2cd3630594b08cc70a1bc3ae0bca7b8bd15c121458e651959f6".toList := by decide +kernel

/-- Such a build publishes another digest, since it starts where the lane refuses to. -/
theorem computeAdmissionSha256_opened :
    computeAdmissionSha256 sampleBuild lanePolicy ≠ computeAdmissionSha256 sampleBuild openedPolicy := by
  intro h
  have hrefused := (computeAdmissionSha256_eq_iff lanePolicy_unbroken openedPolicy_unbroken
    fun hhash => absurd hhash (by decide +kernel)).2 h .unix "CAMELID_ROPE_PAIRING".toList
  exact absurd hrefused (by decide +kernel)

end CamelidEnterprise.Lane
