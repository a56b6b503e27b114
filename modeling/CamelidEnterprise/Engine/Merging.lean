import Mathlib.Logic.Relation
import Mathlib.Data.List.Chain
import CamelidEnterprise.Engine.RoundTrip

/-!
# Camelid Enterprise — merging by rank

`merge_symbols` takes the pair of the lowest rank and merges all of its occurrences in
one pass. The reference merges one pair at a time, the leftmost of the lowest rank.

A table in which every rule comes after the rules that make its parts is *layered*. The
pairs a merge creates then have a higher rank than the merge itself, so the occurrences
still to come stay the lowest, and a pass is a run of the reference.

* `mergeSymbols_ok` — for any table the loop ends, and no index it uses is outside the
  list;
* `mergeSymbols_reference` — for a layered table its result is the one list at which the
  reference stops.
-/

namespace CamelidEnterprise

open Foundation

namespace BpeRegistry

variable {registry : BpeRegistry}

-- ---------------------------------------------------------------------------
-- The reference
-- ---------------------------------------------------------------------------

/-- No pair of the list comes before `rank`. -/
def Lowest (registry : BpeRegistry) (rank : Nat) (symbols : List Str) : Prop :=
  symbols.IsChain fun a b => ∀ k, registry.rank a b = some k → rank ≤ k

/-- No pair of the list has the rank. -/
def Free (registry : BpeRegistry) (rank : Nat) (symbols : List Str) : Prop :=
  symbols.IsChain fun a b => registry.rank a b ≠ some rank

/-- One step of the reference: the leftmost pair of the lowest rank becomes one symbol. -/
inductive MergesOne (registry : BpeRegistry) : List Str → List Str → Prop
  | merge {front back : List Str} {left right : Str} {rank : Nat}
      (hrank : registry.rank left right = some rank)
      (hlowest : registry.Lowest rank (front ++ left :: right :: back))
      (hleftmost : registry.Free rank (front ++ [left])) :
      MergesOne registry (front ++ left :: right :: back) (front ++ (left ++ right) :: back)

/-- No adjacent pair is in the table. -/
def Merged (registry : BpeRegistry) (symbols : List Str) : Prop :=
  symbols.IsChain fun a b => registry.rank a b = none

/-- A rule comes after every rule that makes one of its parts. -/
def Layered (registry : BpeRegistry) : Prop :=
  ∀ left right rank, registry.rank left right = some rank →
    ∀ a b k, registry.rank a b = some k → a ++ b = left ∨ a ++ b = right → k < rank

/-- No two rules have the same rank. -/
def Distinct (registry : BpeRegistry) : Prop :=
  ∀ a b c d rank, registry.rank a b = some rank → registry.rank c d = some rank → a = c ∧ b = d

theorem Merged.not_mergesOne {symbols next : List Str} (h : registry.Merged symbols) :
    ¬registry.MergesOne symbols next := by
  rintro ⟨hrank, -, -⟩
  have hpair := (List.isChain_append_cons_cons.mp h).2.1
  rw [hrank] at hpair
  cases hpair

/-- A pair further to the left stands in what is free of its rank. -/
theorem Free.not_free {rank : Nat} {front front' back back' : List Str} {left right left' : Str}
    (h : registry.Free rank (front' ++ [left']))
    (hsame : front ++ left :: right :: back = front' ++ left' :: back')
    (hlt : front.length < front'.length) : registry.rank left right ≠ some rank := by
  have hprefix : front ++ [left, right] <+: front' ++ [left'] := by
    have hleft : front ++ [left, right] <+: front ++ left :: right :: back := ⟨back, by simp⟩
    have hright : front' ++ [left'] <+: front ++ left :: right :: back :=
      ⟨back', by rw [hsame]; simp⟩
    refine List.prefix_of_prefix_length_le hleft hright ?_
    simp only [List.length_append, List.length_cons, List.length_nil]
    omega
  obtain ⟨more, hmore⟩ := hprefix
  rw [← hmore, List.append_assoc] at h
  exact (List.isChain_append_cons_cons.mp h).2.1

/-- Where the reference merges is settled by the list. -/
theorem Distinct.mergesOne_rightUnique (hdistinct : registry.Distinct) :
    Relator.RightUnique registry.MergesOne := by
  intro symbols next next' h h'
  obtain ⟨hrank, hlowest, hleftmost⟩ := h
  rename_i front back left right rank
  generalize hsymbols : front ++ left :: right :: back = symbols at h'
  obtain ⟨hrank', hlowest', hleftmost'⟩ := h'
  rename_i front' back' left' right' rank'
  -- both take a pair of the lowest rank, which only one pair has
  have hle : rank ≤ rank' := by
    rw [hsymbols] at hlowest
    exact (List.isChain_append_cons_cons.mp hlowest).2.1 rank' hrank'
  have hge : rank' ≤ rank := by
    rw [← hsymbols] at hlowest'
    exact (List.isChain_append_cons_cons.mp hlowest').2.1 rank hrank
  obtain rfl := Nat.le_antisymm hle hge
  obtain ⟨rfl, rfl⟩ := hdistinct _ _ _ _ _ hrank hrank'
  -- and neither has the pair in front of it
  have hfront : front.length = front'.length := by
    rcases Nat.lt_trichotomy front.length front'.length with hlt | heq | hgt
    · exact absurd hrank (hleftmost'.not_free hsymbols hlt)
    · exact heq
    · exact absurd hrank (hleftmost.not_free hsymbols.symm hgt)
  obtain ⟨rfl, hrest⟩ := List.append_inj hsymbols hfront
  rw [(List.cons.inj (List.cons.inj hrest).2).2]

/-- A step relation that leaves no choice has one end at most. -/
theorem eq_of_ends {α : Type} {r : α → α → Prop} (hunique : Relator.RightUnique r) {a b c : α}
    (hb : Relation.ReflTransGen r a b) (hc : Relation.ReflTransGen r a c)
    (hbend : ∀ d, ¬r b d) (hcend : ∀ d, ¬r c d) : b = c := by
  rcases Relation.ReflTransGen.total_of_right_unique hunique hb hc with h | h
  · rcases Relation.ReflTransGen.cases_head h with heq | ⟨d, hstep, -⟩
    · exact heq
    · exact absurd hstep (hbend d)
  · rcases Relation.ReflTransGen.cases_head h with heq | ⟨d, hstep, -⟩
    · exact heq.symm
    · exact absurd hstep (hcend d)

-- ---------------------------------------------------------------------------
-- The candidates of a pass
-- ---------------------------------------------------------------------------

theorem popBest_eq_none {cs : List BpeMergeCandidate} (h : popBest cs = none) : cs = [] := by
  cases cs with
  | nil => rfl
  | cons c cs =>
    rw [popBest] at h
    split at h
    · cases h
    · split at h
      · cases h
      · cases h

theorem popBest_spec {cs : List BpeMergeCandidate} {best : BpeMergeCandidate}
    (h : popBest cs = some best) : best ∈ cs ∧ ∀ c ∈ cs, best.rank ≤ c.rank := by
  induction cs generalizing best with
  | nil => cases h
  | cons c cs ih =>
    rw [popBest] at h
    split at h
    · rename_i hnone
      obtain rfl := Option.some.inj h
      rw [popBest_eq_none hnone]
      refine ⟨List.mem_singleton_self c, ?_⟩
      intro d hd
      rw [List.mem_singleton.mp hd]
    · rename_i later hlater
      obtain ⟨hmem, hle⟩ := ih hlater
      split at h
      · rename_i hbefore
        obtain rfl := Option.some.inj h
        have hrank : later.rank ≤ c.rank := by
          simp only [BpeMergeCandidate.before, Bool.or_eq_true, decide_eq_true_eq, Bool.and_eq_true,
            beq_iff_eq] at hbefore
          omega
        refine ⟨List.mem_cons_of_mem c hmem, ?_⟩
        intro d hd
        rcases List.mem_cons.mp hd with rfl | hd
        · exact hrank
        · exact hle d hd
      · rename_i hbefore
        obtain rfl := Option.some.inj h
        have hrank : c.rank ≤ later.rank := by
          simp only [BpeMergeCandidate.before, Bool.or_eq_true, decide_eq_true_eq, Bool.and_eq_true,
            beq_iff_eq] at hbefore
          omega
        refine ⟨List.mem_cons_self, ?_⟩
        intro d hd
        rcases List.mem_cons.mp hd with rfl | hd
        · exact Nat.le_refl _
        · exact Nat.le_trans hrank (hle d hd)

/-- A candidate is a pair of the list, with its rank. -/
theorem mergeCandidates_mem {symbols : List Str} {idx : Nat} {c : BpeMergeCandidate}
    (h : c ∈ mergeCandidates registry symbols idx) :
    ∃ front left right back, symbols = front ++ left :: right :: back ∧
      c.index = idx + front.length ∧ registry.rank left right = some c.rank := by
  induction symbols, idx using mergeCandidates.induct registry with
  | case1 left right rest idx rank hrank ih =>
    rw [mergeCandidates, hrank] at h
    rcases List.mem_cons.mp h with rfl | h
    · exact ⟨[], left, right, rest, rfl, rfl, hrank⟩
    · obtain ⟨front, a, b, back, hsplit, hindex, hab⟩ := ih h
      refine ⟨left :: front, a, b, back, by rw [hsplit]; rfl, ?_, hab⟩
      rw [hindex, List.length_cons]
      omega
  | case2 left right rest idx hnone ih =>
    rw [mergeCandidates, hnone] at h
    obtain ⟨front, a, b, back, hsplit, hindex, hab⟩ := ih h
    refine ⟨left :: front, a, b, back, by rw [hsplit]; rfl, ?_, hab⟩
    rw [hindex, List.length_cons]
    omega
  | case3 symbols idx hshort =>
    rw [mergeCandidates] at h
    · cases h
    · exact hshort

/-- And every pair of the list that is in the table is a candidate. -/
theorem isChain_of_mergeCandidates {symbols : List Str} {idx : Nat} {P : Nat → Prop}
    (h : ∀ c ∈ mergeCandidates registry symbols idx, P c.rank) :
    symbols.IsChain fun a b => ∀ k, registry.rank a b = some k → P k := by
  induction symbols, idx using mergeCandidates.induct registry with
  | case1 left right rest idx rank hrank ih =>
    rw [mergeCandidates, hrank] at h
    refine List.isChain_cons_cons.mpr ⟨?_, ih fun c hc => h c (List.mem_cons_of_mem _ hc)⟩
    intro k hk
    rw [hrank] at hk
    rw [← Option.some.inj hk]
    exact h ⟨rank, idx⟩ List.mem_cons_self
  | case2 left right rest idx hnone ih =>
    rw [mergeCandidates, hnone] at h
    refine List.isChain_cons_cons.mpr ⟨?_, ih h⟩
    intro k hk
    rw [hnone] at hk
    cases hk
  | case3 symbols idx hshort =>
    match symbols, hshort with
    | [], _ => exact List.isChain_nil
    | [a], _ => exact List.isChain_singleton a
    | a :: b :: rest, hshort => exact absurd rfl (hshort a b rest)

-- ---------------------------------------------------------------------------
-- A pass of the loop
-- ---------------------------------------------------------------------------

theorem mergePair_length_le (left right : Str) (symbols : List Str) :
    (mergePair left right symbols).length ≤ symbols.length := by
  induction symbols using mergePair.induct left right with
  | case1 a b rest hpair ih =>
    rw [mergePair, if_pos hpair]
    simp only [List.length_cons]
    omega
  | case2 a b rest hpair ih =>
    rw [mergePair, if_neg hpair]
    simp only [List.length_cons] at ih ⊢
    omega
  | case3 symbols hshort =>
    rw [mergePair]
    exact hshort

/-- A pass shortens a list that has the pair. -/
theorem mergePair_length_lt {left right : Str} {front back : List Str} :
    (mergePair left right (front ++ left :: right :: back)).length <
      (front ++ left :: right :: back).length := by
  generalize hsymbols : front ++ left :: right :: back = symbols
  induction symbols using mergePair.induct left right generalizing front with
  | case1 a b rest hpair ih =>
    rw [mergePair, if_pos hpair]
    have hle := mergePair_length_le left right rest
    simp only [List.length_cons]
    omega
  | case2 a b rest hpair ih =>
    rw [mergePair, if_neg hpair]
    cases front with
    | nil =>
      obtain ⟨rfl, htail⟩ := List.cons.inj hsymbols
      exact absurd ⟨rfl, (List.cons.inj htail).1.symm⟩ hpair
    | cons x front =>
      have hlt := ih (List.cons.inj hsymbols).2
      simp only [List.length_cons] at hlt ⊢
      omega
  | case3 symbols hshort =>
    cases front with
    | nil => exact absurd hsymbols.symm (hshort left right back)
    | cons x front =>
      cases front with
      | nil => exact absurd hsymbols.symm (hshort x left (right :: back))
      | cons y front =>
        exact absurd hsymbols.symm (hshort x y (front ++ left :: right :: back))

/-- A symbol may stand between others that are no pair with it. -/
theorem isChain_replace {R : Str → Str → Prop} {front back : List Str} {a m : Str}
    (hbefore : ∀ x, R x m) (hafter : ∀ y, R m y) (hfront : (front ++ [a]).IsChain R)
    (hback : back.IsChain R) : (front ++ m :: back).IsChain R := by
  rw [List.isChain_append]
  refine ⟨hfront.left_of_append, List.isChain_cons.mpr ⟨fun y _ => hafter y, hback⟩, ?_⟩
  intro x _ y hy
  obtain rfl := Option.some.inj hy
  exact hbefore x

/-- **Key lemma.** A pass over the pair of the lowest rank is a run of the reference. By
induction on the pass: `front` is what it has gone over, and has the pair nowhere. -/
theorem mergePair_run (hlayered : registry.Layered) (hdistinct : registry.Distinct)
    {left right : Str} {rank : Nat} (hrank : registry.rank left right = some rank)
    {front symbols : List Str} (hlowest : registry.Lowest rank (front ++ symbols))
    (hfree : registry.Free rank (front ++ symbols.take 1)) :
    Relation.ReflTransGen registry.MergesOne (front ++ symbols)
      (front ++ mergePair left right symbols) := by
  -- a pair with the merged symbol comes later
  have hlater : ∀ a b k, registry.rank a b = some k → a = left ++ right ∨ b = left ++ right →
      rank < k := by
    intro a b k hk hpart
    refine hlayered a b k hk left right rank hrank ?_
    rcases hpart with rfl | rfl
    · exact Or.inl rfl
    · exact Or.inr rfl
  induction symbols using mergePair.induct left right generalizing front with
  | case1 a b rest hpair ih =>
    obtain ⟨rfl, rfl⟩ := hpair
    rw [mergePair, if_pos ⟨rfl, rfl⟩]
    refine Relation.ReflTransGen.head (MergesOne.merge hrank hlowest hfree) ?_
    obtain ⟨hfront, -, hrest⟩ := List.isChain_append_cons_cons.mp hlowest
    have hrun := @ih (front ++ [a ++ b]) ?_ ?_
    · rw [List.append_assoc, List.append_assoc] at hrun
      exact hrun
    · rw [List.append_assoc]
      refine isChain_replace ?_ ?_ hfront (List.isChain_cons.mp hrest).2
      · exact fun x k hk => Nat.le_of_lt (hlater x (a ++ b) k hk (Or.inr rfl))
      · exact fun y k hk => Nat.le_of_lt (hlater (a ++ b) y k hk (Or.inl rfl))
    · rw [List.append_assoc]
      refine isChain_replace ?_ ?_ hfree ?_
      · exact fun x hk => Nat.lt_irrefl _ (hlater x (a ++ b) rank hk (Or.inr rfl))
      · exact fun y hk => Nat.lt_irrefl _ (hlater (a ++ b) y rank hk (Or.inl rfl))
      · cases rest with
        | nil => exact List.isChain_nil
        | cons y rest => exact List.isChain_singleton y
  | case2 a b rest hpair ih =>
    rw [mergePair, if_neg hpair]
    have hrun := @ih (front ++ [a]) ?_ ?_
    · rw [List.append_assoc, List.append_assoc] at hrun
      exact hrun
    · rw [List.append_assoc]
      exact hlowest
    · rw [List.append_assoc]
      refine List.isChain_append_cons_cons.mpr ⟨hfree, ?_, List.isChain_singleton b⟩
      intro hk
      exact hpair (hdistinct _ _ _ _ _ hk hrank)
  | case3 symbols hshort =>
    rw [mergePair]
    exact hshort

-- ---------------------------------------------------------------------------
-- The loop
-- ---------------------------------------------------------------------------

/-- One round of the loop: it is over, or makes a pass over the pair of the lowest rank. -/
theorem mergeSymbolsFuel_cases (registry : BpeRegistry) (fuel : Nat) (symbols : List Str) :
    registry.Merged symbols ∧ mergeSymbolsFuel registry (fuel + 1) symbols = .ok symbols ∨
      ∃ left right rank front back, symbols = front ++ left :: right :: back ∧
        registry.rank left right = some rank ∧ registry.Lowest rank symbols ∧
        mergeSymbolsFuel registry (fuel + 1) symbols =
          mergeSymbolsFuel registry fuel (mergePair left right symbols) := by
  rw [mergeSymbolsFuel]
  split
  · cases hbest : popBest (mergeCandidates registry symbols 0) with
    | none =>
      refine Or.inl ⟨?_, rfl⟩
      have hchain : symbols.IsChain fun a b => ∀ k, registry.rank a b = some k → False := by
        refine @isChain_of_mergeCandidates registry symbols 0 (fun _ => False) ?_
        rw [popBest_eq_none hbest]
        simp
      refine hchain.imp fun a b hab => ?_
      cases hk : registry.rank a b with
      | none => rfl
      | some k => exact absurd hk (hab k)
    | some best =>
      obtain ⟨hmem, hle⟩ := popBest_spec hbest
      obtain ⟨front, left, right, back, hsplit, hindex, hrank⟩ := mergeCandidates_mem hmem
      rw [Nat.zero_add] at hindex
      have hleft : symbols[best.index]? = some left := by
        rw [hsplit, hindex, List.getElem?_append_right (Nat.le_refl _), Nat.sub_self]
        rfl
      have hright : symbols[best.index + 1]? = some right := by
        rw [hsplit, hindex, List.getElem?_append_right (Nat.le_succ _),
          Nat.succ_sub (Nat.le_refl _), Nat.sub_self]
        rfl
      refine Or.inr ⟨left, right, best.rank, front, back, hsplit, hrank, ?_, ?_⟩
      · exact isChain_of_mergeCandidates hle
      · dsimp only
        rw [hleft, hright]
        rfl
  · rename_i hshort
    refine Or.inl ⟨?_, rfl⟩
    cases symbols with
    | nil => exact List.isChain_nil
    | cons a rest =>
      cases rest with
      | nil => exact List.isChain_singleton a
      | cons b rest => exact absurd (by simp) hshort

/-- The loop ends, with nothing left to merge. -/
theorem mergeSymbolsFuel_ok (registry : BpeRegistry) {fuel : Nat} {symbols : List Str}
    (hfuel : symbols.length < fuel) :
    ∃ merged, mergeSymbolsFuel registry fuel symbols = .ok merged ∧ registry.Merged merged := by
  induction fuel generalizing symbols with
  | zero => omega
  | succ fuel ih =>
    rcases mergeSymbolsFuel_cases registry fuel symbols with
      ⟨hmerged, hrun⟩ | ⟨left, right, rank, front, back, rfl, -, -, hrun⟩
    · exact ⟨symbols, hrun, hmerged⟩
    · have hlt := @mergePair_length_lt left right front back
      rw [hrun]
      exact ih (by omega)

theorem mergeSymbols_ok (registry : BpeRegistry) (symbols : List Str) :
    ∃ merged, registry.mergeSymbols symbols = .ok merged ∧ registry.Merged merged :=
  mergeSymbolsFuel_ok registry (Nat.lt_succ_self _)

/-- The loop is a run of the reference, pass by pass. -/
theorem mergeSymbolsFuel_run (hlayered : registry.Layered) (hdistinct : registry.Distinct)
    {fuel : Nat} {symbols merged : List Str}
    (h : mergeSymbolsFuel registry fuel symbols = .ok merged) :
    Relation.ReflTransGen registry.MergesOne symbols merged := by
  induction fuel generalizing symbols with
  | zero => cases h
  | succ fuel ih =>
    rcases mergeSymbolsFuel_cases registry fuel symbols with
      ⟨-, hrun⟩ | ⟨left, right, rank, front, back, -, hrank, hlowest, hrun⟩
    · rw [hrun] at h
      obtain rfl := Outcome.ok.inj h
      exact Relation.ReflTransGen.refl
    · rw [hrun] at h
      have hfree : registry.Free rank ([] ++ symbols.take 1) := by
        cases symbols with
        | nil => exact List.isChain_nil
        | cons a rest => exact List.isChain_singleton a
      exact (@mergePair_run registry hlayered hdistinct left right rank hrank [] symbols hlowest hfree).trans (ih h)

-- ---------------------------------------------------------------------------
-- Tables that are read from a file
-- ---------------------------------------------------------------------------

/-- The ranks of a table are below `bound`, and each stands for one pair. -/
structure Ranked (ranks : AList fun _ : Str × Str => Nat) (bound : Nat) : Prop where
  lt : ∀ pair rank, ranks.lookup pair = some rank → rank < bound
  inj : ∀ pair pair' rank, ranks.lookup pair = some rank → ranks.lookup pair' = some rank →
    pair = pair'

theorem Ranked.insert {ranks : AList fun _ : Str × Str => Nat} {bound : Nat}
    (h : Ranked ranks bound) (pair : Str × Str) : Ranked (ranks.insert pair bound) (bound + 1) := by
  have hlookup : ∀ p rank, (ranks.insert pair bound).lookup p = some rank →
      p = pair ∧ rank = bound ∨ ranks.lookup p = some rank := by
    intro p rank hp
    by_cases heq : p = pair
    · subst heq
      rw [AList.lookup_insert] at hp
      exact Or.inl ⟨rfl, (Option.some.inj hp).symm⟩
    · rw [AList.lookup_insert_ne heq] at hp
      exact Or.inr hp
  refine ⟨?_, ?_⟩
  · intro p rank hp
    rcases hlookup p rank hp with ⟨-, rfl⟩ | hold
    · exact Nat.lt_succ_self _
    · exact Nat.lt_succ_of_lt (h.lt p rank hold)
  · intro p p' rank hp hp'
    rcases hlookup p rank hp with ⟨rfl, rfl⟩ | hold
    · rcases hlookup p' _ hp' with ⟨rfl, -⟩ | hold'
      · rfl
      · exact absurd (h.lt p' _ hold') (Nat.lt_irrefl _)
    · rcases hlookup p' _ hp' with ⟨rfl, rfl⟩ | hold'
      · exact absurd (h.lt p _ hold) (Nat.lt_irrefl _)
      · exact h.inj p p' rank hold hold'

theorem Ranked.succ {ranks : AList fun _ : Str × Str => Nat} {bound : Nat}
    (h : Ranked ranks bound) : Ranked ranks (bound + 1) :=
  ⟨fun p rank hp => Nat.lt_succ_of_lt (h.lt p rank hp), h.inj⟩

/-- Rules that each keep the ranks below the next place keep them so to the end. -/
theorem Ranked.foldl {step : (AList fun _ : Str × Str => Nat) → Str × Nat → AList fun _ => Nat}
    (hstep : ∀ ranks entry, Ranked ranks entry.2 → Ranked (step ranks entry) (entry.2 + 1))
    (merges : List Str) (n : Nat) {ranks : AList fun _ : Str × Str => Nat} (h : Ranked ranks n) :
    Ranked ((merges.zipIdx n).foldl step ranks) (n + merges.length) := by
  induction merges generalizing n ranks with
  | nil => exact h
  | cons merge merges ih =>
    rw [List.zipIdx_cons, List.foldl_cons, List.length_cons, Nat.add_comm merges.length,
      ← Nat.add_assoc]
    exact ih (n + 1) (hstep ranks (merge, n) h)

/-- A table's ranks are the places of its rules, so no two are the same. -/
theorem fromMerges_distinct (merges : List Str) : (fromMerges merges).Distinct := by
  have hempty : Ranked ∅ 0 :=
    ⟨fun p r hp => by simp at hp, fun p p' r hp => by simp at hp⟩
  have hranked : Ranked (fromMerges merges).ranks (0 + merges.length) := by
    refine Ranked.foldl (fun ranks entry h => ?_) merges 0 hempty
    cases splitOnceSpace entry.1 with
    | none => exact h.succ
    | some pair => exact h.insert pair
  intro a b c d rank hab hcd
  exact Prod.mk.inj (hranked.inj (a, b) (c, d) rank hab hcd)

/-- **Merging equals the reference.** For a table of rules in which every rule comes after
the rules that make its parts, and any list of symbols: the loop ends, at the one list
where the reference ends, which spells what the symbols spell and has no pair of the
table. -/
theorem mergeSymbols_reference (merges : List Str) (hlayered : (fromMerges merges).Layered)
    (symbols : List Str) :
    ∃ merged, (fromMerges merges).mergeSymbols symbols = .ok merged ∧
      Relation.ReflTransGen (fromMerges merges).MergesOne symbols merged ∧
      (∀ next, ¬(fromMerges merges).MergesOne merged next) ∧
      (∀ other, Relation.ReflTransGen (fromMerges merges).MergesOne symbols other →
        (∀ next, ¬(fromMerges merges).MergesOne other next) → other = merged) ∧
      merged.flatten = symbols.flatten ∧ (fromMerges merges).Merged merged := by
  have hdistinct := fromMerges_distinct merges
  obtain ⟨merged, hrun, hmerged⟩ := mergeSymbols_ok (fromMerges merges) symbols
  have hreference := mergeSymbolsFuel_run hlayered hdistinct hrun
  refine ⟨merged, hrun, hreference, fun _ => hmerged.not_mergesOne, ?_,
    Tokenizer.mergeSymbolsFuel_flatten hrun, hmerged⟩
  intro other hother hend
  exact eq_of_ends hdistinct.mergesOne_rightUnique hother hreference hend
    fun _ => hmerged.not_mergesOne

/-- Two rules, the second of which uses the first. -/
theorem mergeSymbols_reference_two :
    { other | Relation.ReflTransGen (fromMerges ["a b".toList, "ab c".toList]).MergesOne
        [['a'], ['b'], ['c'], ['a'], ['b']] other ∧
          ∀ next, ¬(fromMerges ["a b".toList, "ab c".toList]).MergesOne other next } =
      {[['a', 'b', 'c'], ['a', 'b']]} := by
  have hentries : (fromMerges ["a b".toList, "ab c".toList]).ranks.entries =
      [⟨(['a', 'b'], ['c']), 1⟩, ⟨(['a'], ['b']), 0⟩] := by
    decide +kernel
  have hrank : ∀ a b k, (fromMerges ["a b".toList, "ab c".toList]).rank a b = some k →
      (a = ['a', 'b'] ∧ b = ['c'] ∧ k = 1) ∨ (a = ['a'] ∧ b = ['b'] ∧ k = 0) := by
    intro a b k hk
    have hmem := AList.mem_lookup_iff.mp (Option.mem_def.mpr hk)
    rw [hentries] at hmem
    simpa [and_assoc] using hmem
  have hlayered : (fromMerges ["a b".toList, "ab c".toList]).Layered := by
    intro left right rank hpair a b k hk hpart
    rcases hrank left right rank hpair with ⟨rfl, rfl, rfl⟩ | ⟨rfl, rfl, rfl⟩
    · rcases hrank a b k hk with ⟨rfl, rfl, rfl⟩ | ⟨rfl, rfl, rfl⟩
      · exact absurd hpart (by decide)
      · exact Nat.zero_lt_one
    · rcases hrank a b k hk with ⟨rfl, rfl, rfl⟩ | ⟨rfl, rfl, rfl⟩
      · exact absurd hpart (by decide)
      · exact absurd hpart (by decide)
  obtain ⟨merged, hrun, hreaches, hstops, hend, -⟩ :=
    mergeSymbols_reference ["a b".toList, "ab c".toList] hlayered
      [['a'], ['b'], ['c'], ['a'], ['b']]
  have hresult : (fromMerges ["a b".toList, "ab c".toList]).mergeSymbols
      [['a'], ['b'], ['c'], ['a'], ['b']] = .ok [['a', 'b', 'c'], ['a', 'b']] := by
    decide +kernel
  obtain rfl := Outcome.ok.inj (hresult.symm.trans hrun)
  ext other
  constructor
  · rintro ⟨hother, hstop⟩
    exact hend other hother hstop
  · rintro rfl
    exact ⟨hreaches, hstops⟩

end BpeRegistry

end CamelidEnterprise
