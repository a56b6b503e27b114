import CamelidEnterprise.Server.Lane

/-!
# Camelid Enterprise — what a started lane vouches for

`Policy.Admits` is the policy on the bytes of a name: the scan reads names lossily, and a
name it cannot read is never one that a rule names. `offendersOf` collects the others
sorted and once each, so a refusal depends on the set of names only, and shows no value.

`process` is a process whose environment anyone may write: a start succeeds exactly in an
admitted environment, and writes the vector; it leaves a refused one as it was. The keys it
writes are not admitted, so it succeeds at most once until someone has taken all of them
back out.

Key result: `applyDeterministic_run`.
-/

namespace CamelidEnterprise.Lane

open Foundation Foundation.Utf8

-- ---------------------------------------------------------------------------
-- Names by their bytes
-- ---------------------------------------------------------------------------

/-- How the platform sees a byte of a name. -/
def Platform.fold : Platform → UInt8 → UInt8
  | unix => id
  | windows => Headers.lower

/-- The name is the rule's. -/
def Platform.Spells (platform : Platform) (name : OsString) (rule : String) : Prop :=
  name.map platform.fold = (encode rule.toList).map platform.fold

/-- The name starts with the rule. -/
def Platform.Begins (platform : Platform) (name : OsString) (rule : String) : Prop :=
  (encode rule.toList).map platform.fold <+: name.map platform.fold

/-- A rule is written in ASCII. -/
def AsciiRule (rule : String) : Prop := ∀ byte ∈ encode rule.toList, byte < 128

instance (rule : String) : Decidable (AsciiRule rule) :=
  inferInstanceAs (Decidable (∀ byte ∈ encode rule.toList, byte < 128))

theorem lower_lt_iff (byte : UInt8) : Headers.lower byte < 128 ↔ byte < 128 := by
  unfold Headers.lower
  split
  · rename_i hletter
    simp only [Bool.and_eq_true, decide_eq_true_eq, UInt8.le_iff_toNat_le, UInt8.reduceToNat]
      at hletter
    simp only [UInt8.lt_iff_toNat_lt, UInt8.toNat_add, UInt8.reduceToNat]
    omega
  · rfl

theorem lower_ascii {rule : String} (hrule : AsciiRule rule) :
    ∀ byte ∈ (encode rule.toList).map Headers.lower, byte < 128 := by
  intro byte hmem
  obtain ⟨source, hsource, rfl⟩ := List.mem_map.mp hmem
  exact (lower_lt_iff source).mpr (hrule source hsource)

theorem nameEq_iff {rule : String} (hrule : AsciiRule rule) (platform : Platform)
    (name : OsString) :
    nameEq platform (platform.toStringLossy name) rule = true ↔ platform.Spells name rule := by
  cases platform with
  | unix =>
    show decide (fromUtf8Lossy name = rule.toList) = true ↔
      name.map id = (encode rule.toList).map id
    rw [decide_eq_true_iff, List.map_id, List.map_id]
    exact lossy_eq_iff (replacement_not_mem_of_ascii hrule) name
  | windows =>
    show decide ((encode (fromWtf8Lossy name)).map Headers.lower =
        (encode rule.toList).map Headers.lower) = true ↔
      name.map Headers.lower = (encode rule.toList).map Headers.lower
    rw [decide_eq_true_iff]
    exact map_encode_lossy_eq_iff (fun byte => (lower_lt_iff byte).mp) (lower_ascii hrule) name

theorem nameStartsWith_iff {rule : String} (hrule : AsciiRule rule) (platform : Platform)
    (name : OsString) :
    nameStartsWith platform (platform.toStringLossy name) rule = true ↔
      platform.Begins name rule := by
  cases platform with
  | unix =>
    show rule.toList.isPrefixOf (fromUtf8Lossy name) = true ↔
      (encode rule.toList).map id <+: name.map id
    rw [List.isPrefixOf_iff_prefix, List.map_id, List.map_id]
    exact isPrefix_lossy_iff (replacement_not_mem_of_ascii hrule) name
  | windows =>
    have hcut : ∀ text : List UInt8,
        (decide ((encode rule.toList).length ≤ text.length) &&
          eqIgnoreAsciiCase (text.take (encode rule.toList).length) (encode rule.toList)) = true ↔
        (encode rule.toList).map Headers.lower <+: text.map Headers.lower := by
      intro text
      rw [List.prefix_iff_eq_take, List.length_map, ← List.map_take]
      simp only [eqIgnoreAsciiCase, Bool.and_eq_true, decide_eq_true_eq]
      constructor
      · rintro ⟨-, heq⟩
        exact heq.symm
      · intro heq
        refine ⟨?_, heq.symm⟩
        have hlength := congrArg List.length heq
        rw [List.length_map, List.length_map, List.length_take] at hlength
        omega
    exact (hcut _).trans
      (isPrefix_map_encode_lossy_iff (fun byte => (lower_lt_iff byte).mp) (lower_ascii hrule) name)

-- ---------------------------------------------------------------------------
-- The policy by the bytes of a name
-- ---------------------------------------------------------------------------

/-- The names a rule is about. -/
def Match.Covers (rule : Match) (platform : Platform) (name : OsString) : Prop :=
  match rule with
  | Exact rule => platform.Spells name rule
  | Prefix rule => platform.Begins name rule

/-- A variable of this name may be set: it is not a foreign one, and under the namespace a rule
names it. -/
def Policy.Admits (policy : Policy) (platform : Platform) (name : OsString) : Prop :=
  (platform.Begins name policy.claimed →
      ∃ permit ∈ policy.permitted, permit.rule.Covers platform name) ∧
    ∀ row ∈ policy.refusedForeign, ¬platform.Spells name row.1

/-- Every name of a policy is written in ASCII. -/
structure Policy.Ascii (policy : Policy) : Prop where
  claimed : AsciiRule policy.claimed
  permitted : ∀ permit ∈ policy.permitted, AsciiRule permit.rule.literal
  refusedForeign : ∀ row ∈ policy.refusedForeign, AsciiRule row.1

theorem lanePolicy_ascii : lanePolicy.Ascii :=
  ⟨by decide +kernel, by decide +kernel, by decide +kernel⟩

theorem ruleMatches_iff {rule : Match} (hrule : AsciiRule rule.literal) (platform : Platform)
    (name : OsString) :
    ruleMatches platform rule (platform.toStringLossy name) = true ↔ rule.Covers platform name := by
  cases rule with
  | Exact rule => exact nameEq_iff hrule platform name
  | Prefix rule => exact nameStartsWith_iff hrule platform name

/-- What the scan refuses of the names it read, is what the policy does not admit of those that
were set. -/
theorem Policy.refused_eq_false_iff {policy : Policy} (hascii : policy.Ascii) (platform : Platform)
    (name : OsString) :
    policy.refused platform (platform.toStringLossy name) = false ↔ policy.Admits platform name := by
  have hclaimed := nameStartsWith_iff hascii.claimed platform name
  have hpermitted : permittedBy platform policy.permitted (platform.toStringLossy name) = true ↔
      ∃ permit ∈ policy.permitted, permit.rule.Covers platform name := by
    unfold permittedBy
    rw [List.any_eq_true]
    exact exists_congr fun permit => and_congr_right fun hmem =>
      ruleMatches_iff (hascii.permitted permit hmem) platform name
  have hforeign : policy.foreignRefusal platform (platform.toStringLossy name) = none ↔
      ∀ row ∈ policy.refusedForeign, ¬platform.Spells name row.1 := by
    unfold foreignRefusal
    rw [Option.map_eq_none_iff, List.find?_eq_none]
    exact forall₂_congr fun row hmem =>
      not_congr (nameEq_iff (hascii.refusedForeign row hmem) platform name)
  unfold refused inNamespace Admits
  rw [← hpermitted, ← hforeign, ← hclaimed]
  cases nameStartsWith platform (platform.toStringLossy name) policy.claimed
  · simp
  · simp

-- ---------------------------------------------------------------------------
-- The scan
-- ---------------------------------------------------------------------------

section Scan

variable {policy : Policy} {platform : Platform} {vars : List (OsString × OsString)}

/-- By induction on the variables, from any set of offenders. -/
theorem offendersOf_aux (vars : List (OsString × OsString)) :
    ∀ found : List (Str × Unit), Json.Map.Sorted found →
      Json.Map.Sorted (vars.foldl (fun offenders var =>
        if policy.refused platform (platform.toStringLossy var.1) then
          Json.Map.insert (platform.toStringLossy var.1) () offenders else offenders) found) ∧
      ∀ name, Json.Map.get name (vars.foldl (fun offenders var =>
          if policy.refused platform (platform.toStringLossy var.1) then
            Json.Map.insert (platform.toStringLossy var.1) () offenders else offenders) found) =
            some () ↔
        Json.Map.get name found = some () ∨
          policy.refused platform name = true ∧
            ∃ var ∈ vars, platform.toStringLossy var.1 = name := by
  induction vars with
  | nil => exact fun found hsorted => ⟨hsorted, fun name => by simp⟩
  | cons var vars ih =>
    intro found hsorted
    rw [List.foldl_cons]
    by_cases hrefused : policy.refused platform (platform.toStringLossy var.1) = true
    · rw [if_pos hrefused]
      obtain ⟨hsorted', hget⟩ := ih _ hsorted.insert
      refine ⟨hsorted', fun name => ?_⟩
      rw [hget, Json.Map.get_insert]
      by_cases hname : platform.toStringLossy var.1 = name
      · subst hname
        simp [hrefused]
      · simp [hname]
    · rw [if_neg hrefused]
      obtain ⟨hsorted', hget⟩ := ih found hsorted
      refine ⟨hsorted', fun name => ?_⟩
      rw [hget]
      by_cases hname : platform.toStringLossy var.1 = name
      · subst hname
        simp [hrefused]
      · simp [hname]

/-- The offenders are the names that are refused, ascending and once each. -/
theorem offendersOf_spec (policy : Policy) (platform : Platform)
    (vars : List (OsString × OsString)) :
    ((offendersOf policy platform vars).map Prod.fst).Pairwise (· < ·) ∧
      ∀ name, name ∈ (offendersOf policy platform vars).map Prod.fst ↔
        policy.refused platform name = true ∧
          ∃ var ∈ vars, platform.toStringLossy var.1 = name := by
  obtain ⟨hsorted, hget⟩ := @offendersOf_aux policy platform vars [] List.Pairwise.nil
  refine ⟨List.pairwise_map.mpr hsorted, fun name => ?_⟩
  have hname := hget name
  rw [Json.Map.get_nil] at hname
  constructor
  · intro hmem
    obtain ⟨⟨name, ⟨⟩⟩, hentry, rfl⟩ := List.mem_map.mp hmem
    exact (hname.mp (hsorted.get_eq hentry)).resolve_left (by simp)
  · intro hoffends
    exact List.mem_map.mpr ⟨(name, ()), Json.Map.mem_of_get (hname.mpr (.inr hoffends)), rfl⟩

/-- A name is not admitted just where it is read as an offender. -/
theorem mem_offendersOf_iff (hascii : policy.Ascii) {name : Str} :
    name ∈ (offendersOf policy platform vars).map Prod.fst ↔
      ∃ var ∈ vars, platform.toStringLossy var.1 = name ∧ ¬policy.Admits platform var.1 := by
  rw [(offendersOf_spec policy platform vars).2]
  constructor
  · rintro ⟨hrefused, var, hmem, rfl⟩
    refine ⟨var, hmem, rfl, fun hadmits => ?_⟩
    rw [(policy.refused_eq_false_iff hascii platform var.1).mpr hadmits] at hrefused
    exact absurd hrefused (by simp)
  · rintro ⟨var, hmem, rfl, hnot⟩
    refine ⟨?_, var, hmem, rfl⟩
    rw [← policy.refused_eq_false_iff hascii, Bool.not_eq_false] at hnot
    exact hnot

/-- What a refusal says. -/
structure RefusesExactly (policy : Policy) (platform : Platform) (vars : List (OsString × OsString))
    (message : Str) (offenders : List Str) : Prop where
  ascending : offenders.Pairwise (· < ·)
  offends : ∀ name, name ∈ offenders ↔
    ∃ var ∈ vars, platform.toStringLossy var.1 = name ∧ ¬policy.Admits platform var.1
  text : message = refusalMessage policy platform offenders

/-- The scan lets an environment pass that the policy admits, and of another it names exactly the
offenders. -/
theorem refuseUnpermitted_spec (hascii : policy.Ascii) :
    (refuseUnpermitted policy platform vars = .ok () ↔
        ∀ var ∈ vars, policy.Admits platform var.1) ∧
      ∀ message, refuseUnpermitted policy platform vars = .error message →
        ∃ offenders, RefusesExactly policy platform vars message offenders := by
  have hmem := fun name => @mem_offendersOf_iff policy platform vars hascii name
  unfold refuseUnpermitted
  rcases hfound : offendersOf policy platform vars with _ | ⟨first, rest⟩
  · rw [hfound] at hmem
    refine ⟨⟨fun _ var hvar => ?_, fun _ => rfl⟩, fun message h => absurd h (by simp)⟩
    by_contra hnot
    exact absurd ((hmem _).mpr ⟨var, hvar, rfl, hnot⟩) List.not_mem_nil
  · rw [← hfound]
    constructor
    · refine ⟨fun h => ?_, fun hall => ?_⟩
      · rw [hfound] at h
        exact absurd h (by simp)
      · obtain ⟨var, hvar, -, hnot⟩ := (hmem first.1).mp (by rw [hfound]; simp)
        exact absurd (hall var hvar) hnot
    · intro message h
      refine ⟨(offendersOf policy platform vars).map Prod.fst,
        (offendersOf_spec policy platform vars).1, hmem, ?_⟩
      rw [hfound] at h ⊢
      exact (Except.error.inj h).symm

end Scan

-- ---------------------------------------------------------------------------
-- The vector in the environment
-- ---------------------------------------------------------------------------

/-- A variable of the name is set. -/
def Env.Has (env : Env) (name : OsString) : Prop := ∃ var ∈ env, var.1 = name

@[simp] theorem Env.get_set (env : Env) (name value other : OsString) :
    (env.set name value).get other = if name = other then some value else env.get other := by
  induction env with
  | nil =>
    by_cases h : name = other
    · simp [Env.set, Env.get, h]
    · simp [Env.set, Env.get, h]
  | cons var rest ih =>
    unfold Env.get at ih ⊢
    unfold Env.set
    by_cases hvar : var.1 = name
    · rw [if_pos hvar]
      by_cases h : name = other
      · simp [h]
      · simp [h, hvar]
    · rw [if_neg hvar]
      by_cases h : var.1 = other
      · have hne : name ≠ other := fun hname => hvar (h.trans hname.symm)
        simp [h, hne]
      · rw [List.find?_cons_of_neg (by simpa using h), List.find?_cons_of_neg (by simpa using h), ih]

theorem Env.has_of_get {env : Env} {name value : OsString} (h : env.get name = some value) :
    env.Has name := by
  obtain ⟨var, hfound, -⟩ := Option.map_eq_some_iff.mp h
  exact ⟨var, List.mem_of_find?_eq_some hfound, by simpa using List.find?_some hfound⟩

theorem Env.get_of_has {env : Env} {name : OsString} (h : env.Has name) :
    ∃ value, env.get name = some value := by
  obtain ⟨var, hmem, rfl⟩ := h
  rcases hfound : env.find? (fun other => other.1 = var.1) with _ | found
  · exact absurd (List.find?_eq_none.mp hfound var hmem) (by simp)
  · exact ⟨found.2, Option.map_eq_some_iff.mpr ⟨found, hfound, rfl⟩⟩

/-- The value the vector gives a name. -/
def canonicalValue (name : OsString) : Option OsString :=
  (canonical.find? fun row => encode row.1.toList = name).map fun row => encode row.2.toList

/-- What writing some rows leaves under a name: the last of them, or what was there. -/
theorem get_foldl_set (rows : List (String × String)) (env : Env) (name : OsString) :
    (rows.foldl (fun env row => env.set (encode row.1.toList) (encode row.2.toList)) env).get name =
      ((rows.reverse.find? fun row => encode row.1.toList = name).map
        fun row => encode row.2.toList).or (env.get name) := by
  induction rows generalizing env with
  | nil => simp
  | cons row rows ih =>
    rw [List.foldl_cons, ih, List.reverse_cons, List.find?_append, Env.get_set]
    by_cases h : encode row.1.toList = name
    · cases rows.reverse.find? fun row => encode row.1.toList = name
      · simp [h]
      · simp [h]
    · cases rows.reverse.find? fun row => encode row.1.toList = name
      · simp [h]
      · simp [h]

/-- The names of the vector are different. -/
theorem canonical_nodup : (canonical.map fun row => encode row.1.toList).Nodup := by decide +kernel

/-- The names of the vector are refused whoever wrote them. -/
theorem canonical_not_admitted : ∀ row ∈ canonical, ¬lanePolicy.Admits .unix (encode row.1.toList) := by
  have hrefused : ∀ row ∈ canonical,
      lanePolicy.refused .unix (Platform.unix.toStringLossy (encode row.1.toList)) = true := by
    decide +kernel
  intro row hrow hadmits
  have hrow := hrefused row hrow
  rw [(lanePolicy.refused_eq_false_iff lanePolicy_ascii .unix _).mpr hadmits] at hrow
  exact absurd hrow (by simp)

theorem get_writeCanonical (env : Env) (name : OsString) :
    (writeCanonical env).get name = (canonicalValue name).or (env.get name) := by
  -- the names are different, so it does not matter that the last of them counts
  have hfind : ∀ rows : List (String × String), (rows.map fun row => encode row.1.toList).Nodup →
      rows.reverse.find? (fun row => encode row.1.toList = name) =
        rows.find? fun row => encode row.1.toList = name := by
    intro rows hnodup
    induction rows with
    | nil => rfl
    | cons row rows ih =>
      rw [List.map_cons, List.nodup_cons] at hnodup
      rw [List.reverse_cons, List.find?_append, ih hnodup.2]
      by_cases h : encode row.1.toList = name
      · rw [List.find?_eq_none.mpr]
        · simp [h]
        · intro other hother hsame
          exact hnodup.1 (List.mem_map.mpr ⟨other, hother, (of_decide_eq_true hsame).trans h.symm⟩)
      · simp [h]
  unfold writeCanonical canonicalValue
  rw [get_foldl_set, hfind canonical canonical_nodup]

/-- Whoever writes, a variable stays until it is removed. -/
theorem Env.Has.set {env : Env} {name : OsString} (h : env.Has name) (other value : OsString) :
    (env.set other value).Has name := by
  obtain ⟨old, hold⟩ := Env.get_of_has h
  by_cases hname : other = name
  · exact @Env.has_of_get _ _ value (by rw [Env.get_set, if_pos hname])
  · exact @Env.has_of_get _ _ old (by rw [Env.get_set, if_neg hname, hold])

theorem Env.Has.remove {env : Env} {name other : OsString} (h : env.Has name)
    (hne : other ≠ name) : (env.remove other).Has name := by
  obtain ⟨var, hmem, rfl⟩ := h
  exact ⟨var, List.mem_filter.mpr ⟨hmem, by simpa using fun h => hne h.symm⟩, rfl⟩

theorem Env.Has.writeCanonical {env : Env} {name : OsString} (h : env.Has name) :
    (writeCanonical env).Has name := by
  obtain ⟨value, hvalue⟩ := Env.get_of_has h
  rcases hcanonical : canonicalValue name with _ | written
  · exact @Env.has_of_get _ _ value (by rw [get_writeCanonical, hcanonical]; exact hvalue)
  · exact @Env.has_of_get _ _ written (by rw [get_writeCanonical, hcanonical]; rfl)

theorem has_writeCanonical (env : Env) {row : String × String} (hrow : row ∈ canonical) :
    (writeCanonical env).Has (encode row.1.toList) := by
  rcases hfound : canonical.find? (fun other => encode other.1.toList = encode row.1.toList) with
    _ | found
  · exact absurd (List.find?_eq_none.mp hfound row hrow) (by simp)
  · refine @Env.has_of_get _ _ (encode found.2.toList) ?_
    rw [get_writeCanonical]
    unfold canonicalValue
    rw [hfound]
    rfl

-- ---------------------------------------------------------------------------
-- Processes
-- ---------------------------------------------------------------------------

/-- What happens to the environment of a process. -/
inductive EnvAction
  | set (name value : OsString)
  | remove (name : OsString)
  | apply
deriving DecidableEq, Repr

/-- A process: the lane is started by someone, and everyone may write. -/
def process (build : Build) : Machine Env EnvAction (Option (Except Str ConfigVector)) where
  start _ := True
  step env action result env' :=
    match action with
    | .set name value => result = none ∧ env' = env.set name value
    | .remove name => result = none ∧ env' = env.remove name
    | .apply => result = some (applyDeterministic build env).1 ∧ env' = (applyDeterministic build env).2

/-- A step in which the lane started. -/
def Started (entry : Entry Env EnvAction (Option (Except Str ConfigVector))) : Prop :=
  ∃ vector, entry.result = some (.ok vector)

/-- What a start of the lane does. -/
structure StartsExactly (build : Build)
    (entry : Entry Env EnvAction (Option (Except Str ConfigVector))) : Prop where
  /-- it succeeds in an admitted environment -/
  admits : Started entry ↔ ∀ var ∈ entry.before, lanePolicy.Admits .unix var.1
  /-- then it publishes its digests, and the environment is the one it found with its vector -/
  writes : Started entry →
    entry.result = some (.ok ⟨computeConfigSha256 build, computeAdmissionSha256 build lanePolicy⟩) ∧
      ∀ name, entry.after.get name = (canonicalValue name).or (entry.before.get name)
  /-- otherwise nothing is written, and every offender is named -/
  refuses : ¬Started entry → entry.after = entry.before ∧ ∃ message offenders,
    entry.result = some (.error message) ∧
      RefusesExactly lanePolicy .unix entry.before message offenders

section Runs

attribute [local irreducible] refuseUnpermitted writeCanonical canonicalValue computeConfigSha256
  computeAdmissionSha256

variable {build : Build} {history : List (Entry Env EnvAction (Option (Except Str ConfigVector)))}
  {env : Env}

theorem applyDeterministic_refused {message : Str}
    (h : refuseUnpermitted lanePolicy .unix env = .error message) :
    applyDeterministic build env = (.error message, env) := by
  unfold applyDeterministic
  rw [h]

theorem applyDeterministic_admitted (h : refuseUnpermitted lanePolicy .unix env = .ok ()) :
    applyDeterministic build env =
      (.ok ⟨computeConfigSha256 build, computeAdmissionSha256 build lanePolicy⟩,
        writeCanonical env) := by
  unfold applyDeterministic
  rw [h]

/-- One start. -/
theorem applyDeterministic_exact {entry : Entry Env EnvAction (Option (Except Str ConfigVector))}
    (haction : entry.action = .apply)
    (hstep : (process build).step entry.before entry.action entry.result entry.after) :
    StartsExactly build entry := by
  obtain ⟨before, action, result, after⟩ := entry
  obtain rfl : action = .apply := haction
  obtain ⟨rfl, rfl⟩ : result = some (applyDeterministic build before).1 ∧
    after = (applyDeterministic build before).2 := hstep
  obtain ⟨hok, herror⟩ := @refuseUnpermitted_spec lanePolicy .unix before lanePolicy_ascii
  rcases hscan : refuseUnpermitted lanePolicy .unix before with message | ⟨⟩
  · obtain ⟨offenders, hoffenders⟩ := herror message hscan
    rw [applyDeterministic_refused hscan]
    have hnot : ¬∀ var ∈ before, lanePolicy.Admits .unix var.1 := fun hall => by
      rw [hok.mpr hall] at hscan
      exact absurd hscan (by simp)
    have hstopped : ¬Started ⟨before, .apply, some (.error message), before⟩ := by
      rintro ⟨vector, h⟩
      exact absurd (Option.some.inj h) (by simp)
    exact ⟨⟨fun h => absurd h hstopped, fun h => absurd h hnot⟩, fun h => absurd h hstopped,
      fun _ => ⟨rfl, message, offenders, rfl, hoffenders⟩⟩
  · rw [applyDeterministic_admitted hscan]
    have hstarted : Started ⟨before, .apply, some (.ok ⟨computeConfigSha256 build,
        computeAdmissionSha256 build lanePolicy⟩), writeCanonical before⟩ := ⟨_, rfl⟩
    exact ⟨⟨fun _ => hok.mp hscan, fun _ => hstarted⟩,
      fun _ => ⟨rfl, get_writeCanonical before⟩, fun h => absurd hstarted h⟩

/-- A variable is there until someone removes it. -/
theorem has_of_step {entry : Entry Env EnvAction (Option (Except Str ConfigVector))}
    {name : OsString} (h : entry.before.Has name) (hkept : entry.action ≠ .remove name)
    (hstep : (process build).step entry.before entry.action entry.result entry.after) :
    entry.after.Has name := by
  obtain ⟨before, action, result, after⟩ := entry
  cases action with
  | set other value =>
    obtain ⟨-, rfl⟩ : _ ∧ after = before.set other value := hstep
    exact h.set other value
  | remove other =>
    obtain ⟨-, rfl⟩ : _ ∧ after = before.remove other := hstep
    exact h.remove fun hsame => hkept (by rw [hsame])
  | apply =>
    obtain ⟨-, rfl⟩ : _ ∧ after = (applyDeterministic build before).2 := hstep
    rcases hscan : refuseUnpermitted lanePolicy .unix before with message | ⟨⟩
    · rw [applyDeterministic_refused hscan]
      exact h
    · rw [applyDeterministic_admitted hscan]
      exact h.writeCanonical

/-- By induction on the steps behind a start: its keys are there unless one was removed. -/
theorem has_after_start (run : (process build).Run history env) :
    ∀ {front mid : List (Entry Env EnvAction (Option (Except Str ConfigVector)))}
      {first : Entry Env EnvAction (Option (Except Str ConfigVector))},
      history = front ++ first :: mid → Started first → ∀ row ∈ canonical,
        (∀ e ∈ mid, e.action ≠ .remove (encode row.1.toList)) → env.Has (encode row.1.toList) := by
  induction run with
  | nil => exact fun hcut => absurd hcut.symm (by simp)
  | @snoc history env env' action result run hstep ih =>
    intro front mid first hcut hstarted row hrow hkept
    rcases List.eq_nil_or_concat mid with rfl | ⟨mid, last, rfl⟩
    · -- the start is the last step
      obtain ⟨rfl, hlast⟩ := List.append_inj' hcut rfl
      obtain rfl := (List.cons.inj hlast).1
      obtain ⟨vector, hvector⟩ := hstarted
      obtain rfl : action = .apply := by
        cases action with
        | set name value =>
          obtain ⟨rfl, -⟩ : result = none ∧ _ := hstep
          exact absurd hvector (by simp)
        | remove name =>
          obtain ⟨rfl, -⟩ : result = none ∧ _ := hstep
          exact absurd hvector (by simp)
        | apply => rfl
      obtain ⟨rfl, rfl⟩ : result = some (applyDeterministic build env).1 ∧
        env' = (applyDeterministic build env).2 := hstep
      rcases hscan : refuseUnpermitted lanePolicy .unix env with message | ⟨⟩
      · rw [applyDeterministic_refused hscan] at hvector
        exact absurd (Option.some.inj hvector) (by simp)
      · rw [applyDeterministic_admitted hscan]
        exact has_writeCanonical env hrow
    · rw [List.concat_eq_append, ← List.cons_append, ← List.append_assoc] at hcut
      obtain ⟨hhistory, hlast⟩ := List.append_inj' hcut rfl
      obtain rfl := (List.cons.inj hlast).1
      have hthere := ih hhistory hstarted row hrow fun e he => hkept e (by simp [he])
      exact @has_of_step _ ⟨env, action, result, env'⟩ _ hthere (hkept _ (by simp)) hstep

/-- **What a started lane vouches for.** In every run of a process whose environment anyone
writes, each start of the lane succeeds exactly in an admitted environment, writes its vector
over it and nothing else, and leaves a refused one as it was, naming every offender; and behind
a start that succeeded, another one does only after every key of the vector was removed. -/
theorem applyDeterministic_run (run : (process build).Run history env) :
    (∀ e ∈ history, e.action = .apply → StartsExactly build e) ∧
      ∀ front mid back first second, history = front ++ first :: (mid ++ second :: back) →
        Started first → second.action = .apply → Started second →
          ∀ row ∈ canonical, ∃ e ∈ mid, e.action = .remove (encode row.1.toList) := by
  refine ⟨fun e he haction => applyDeterministic_exact haction (run.step_of_mem he), ?_⟩
  intro front mid back first second hcut hfirst haction hsecond row hrow
  by_contra hkept
  have hcut' : history = (front ++ first :: mid) ++ second :: back := by
    rw [hcut]
    simp
  obtain ⟨hbefore, hstep⟩ := run.split hcut'
  have hthere := has_after_start hbefore rfl hfirst row hrow fun e he h => hkept ⟨e, he, h⟩
  obtain ⟨var, hvar, hname⟩ := hthere
  have hadmits := (applyDeterministic_exact haction hstep).admits.mp hsecond var hvar
  rw [hname] at hadmits
  exact canonical_not_admitted row hrow hadmits

end Runs

/-- An address is set, and a variable whose name is not text. -/
def addressEnv : Env :=
  [(encode "CAMELID_ENTERPRISE_ADDR".toList, [48]), ([0xC3, 0x28], [])]

/-- A build whose digests are the lengths of what they are of. -/
def lengthBuild : Build := ⟨fun bytes => Nat.toDigits 10 bytes.length, "pin"⟩

/-- The lane starts over them, and refuses to start once more. -/
theorem applyDeterministic_run_twice :
    (∃ vector, (applyDeterministic lengthBuild addressEnv).1 = .ok vector) ∧
      ∀ vector, (applyDeterministic lengthBuild (applyDeterministic lengthBuild addressEnv).2).1 ≠
        .ok vector := by
  have hscan : refuseUnpermitted lanePolicy .unix addressEnv = .ok () := by decide +kernel
  have hfirst := @applyDeterministic_admitted lengthBuild _ hscan
  refine ⟨⟨_, by rw [hfirst]⟩, fun vector hsecond => ?_⟩
  have run : (process lengthBuild).Run
      ([⟨addressEnv, .apply, some (applyDeterministic lengthBuild addressEnv).1,
          (applyDeterministic lengthBuild addressEnv).2⟩] ++
        [⟨(applyDeterministic lengthBuild addressEnv).2, .apply,
          some (applyDeterministic lengthBuild (applyDeterministic lengthBuild addressEnv).2).1,
          (applyDeterministic lengthBuild (applyDeterministic lengthBuild addressEnv).2).2⟩]) _ :=
    .snoc (.snoc (.nil trivial) ⟨rfl, rfl⟩) ⟨rfl, rfl⟩
  obtain ⟨e, he, -⟩ := (applyDeterministic_run run).2 [] [] [] _ _ rfl ⟨_, by rw [hfirst]⟩ rfl
    ⟨vector, by rw [hsecond]⟩ ("CAMELID_DETERMINISTIC", "1") (by decide +kernel)
  exact absurd he List.not_mem_nil

/-- A name that starts like an engine's and is not text is refused, and printed as it is read. -/
example : (offendersOf lanePolicy .unix
    [(encode "CAMELID_X".toList ++ [0xFF], []), ([0xFF], []), (encode "camelid_x".toList, [])]).map
      Prod.fst = ["CAMELID_X".toList ++ [replacement]] := by
  decide +kernel

end CamelidEnterprise.Lane
