import Mathlib.Data.List.Basic

/-!
# Regular expressions that backtrack

Patterns whose repetitions are greedy and run over one class of characters, matched
leftmost-first: of the ways in which a pattern matches at a place, the first one that
backtracking comes to counts. `ends` lists the lengths of all of them in that order, and
`tokenize` cuts a text into its matches.

The class of a pattern is arbitrary, and so is the alphabet.
-/

namespace Foundation

/-- A pattern over an alphabet: a greedy run of `least` to `most` characters of a class, a
sequence, an ordered choice, or `(?!..)` of a class. -/
inductive Regex (α : Type) where
  | many (p : α → Bool) (least : Nat) (most : Option Nat)
  | seq (a b : Regex α)
  | alt (a b : Regex α)
  | notNext (p : α → Bool)

namespace Regex

variable {α : Type}

/-- The lengths of the runs of a class, each greater one tried before the lesser. -/
def runs (p : α → Bool) : Nat → Option Nat → List α → List Nat
  | least, most, c :: cs =>
    let stop := if least = 0 then [0] else []
    if p c && most != some 0 then
      (runs p (least - 1) (most.map (· - 1)) cs).map (· + 1) ++ stop
    else stop
  | least, _, [] => if least = 0 then [0] else []

/-- The lengths of the matches at the start of a text, in the order of preference. -/
def ends : Regex α → List α → List Nat
  | many p least most, s => runs p least most s
  | seq a b, s => (a.ends s).flatMap fun n => (b.ends (s.drop n)).map (n + ·)
  | alt a b, s => a.ends s ++ b.ends s
  | notNext p, s => if s.head?.any p then [] else [0]

/-- The length of the preferred match at the start of a text. -/
def firstMatch (r : Regex α) (s : List α) : Option Nat := (r.ends s).head?

/-- The matches in a text, from left to right; what no match covers is passed over. -/
def tokenizeFuel (r : Regex α) : Nat → List α → List (List α)
  | fuel + 1, c :: cs =>
    match r.firstMatch (c :: cs) with
    | some (n + 1) => (c :: cs).take (n + 1) :: tokenizeFuel r fuel ((c :: cs).drop (n + 1))
    | some 0 => [] :: tokenizeFuel r fuel cs
    | none => tokenizeFuel r fuel cs
  | _, _ => []

def tokenize (r : Regex α) (s : List α) : List (List α) := r.tokenizeFuel s.length s

/-- One character of a class. -/
def char (p : α → Bool) : Regex α := many p 1 (some 1)

/-- `p?` -/
def opt (p : α → Bool) : Regex α := many p 0 (some 1)

/-- `p*` -/
def star (p : α → Bool) : Regex α := many p 0 none

/-- `p+` -/
def plus (p : α → Bool) : Regex α := many p 1 none

/-- `a|b|..` -/
def choice : List (Regex α) → Regex α
  | [] => plus fun _ => false
  | r :: rs => alt r (choice rs)

-- ---------------------------------------------------------------------------
-- The preferred match
-- ---------------------------------------------------------------------------

theorem firstMatch_alt (a b : Regex α) (s : List α) :
    (alt a b).firstMatch s = (a.firstMatch s).or (b.firstMatch s) := by
  unfold firstMatch
  rw [ends, List.head?_append]

theorem firstMatch_choice (rs : List (Regex α)) (s : List α) :
    (choice rs).firstMatch s = rs.findSome? (·.firstMatch s) := by
  induction rs with
  | nil =>
    cases s with
    | nil => rfl
    | cons c cs => simp [choice, plus, firstMatch, ends, runs]
  | cons r rs ih =>
    rw [choice, firstMatch_alt, ih, List.findSome?_cons]
    cases r.firstMatch s with
    | none => rfl
    | some n => rfl

theorem firstMatch_notNext (p : α → Bool) (s : List α) :
    (notNext p).firstMatch s = if s.head?.any p then none else some 0 := by
  unfold firstMatch
  rw [ends]
  split
  · rfl
  · rfl

/-- The first pattern of a sequence that has one match leaves no choice. -/
theorem firstMatch_seq_of_ends {a b : Regex α} {s : List α} {n : Nat} (h : a.ends s = [n]) :
    (seq a b).firstMatch s = (b.firstMatch (s.drop n)).map (n + ·) := by
  unfold firstMatch
  rw [ends, h, List.flatMap_singleton, List.head?_map]

theorem firstMatch_seq_of_none {a b : Regex α} {s : List α} (h : a.ends s = []) :
    (seq a b).firstMatch s = none := by
  unfold firstMatch
  rw [ends, h]
  rfl

/-- Where a run may stop at once. -/
theorem runs_cons_of_neg {p : α → Bool} {c : α} (h : p c = false) (least : Nat)
    (most : Option Nat) (cs : List α) :
    runs p least most (c :: cs) = if least = 0 then [0] else [] := by
  rw [runs, h, Bool.false_and, if_neg Bool.false_ne_true]

theorem runs_cons_of_pos {p : α → Bool} {c : α} (h : p c = true) (least : Nat)
    {most : Option Nat} (hmost : most ≠ some 0) (cs : List α) :
    runs p least most (c :: cs) =
      (runs p (least - 1) (most.map (· - 1)) cs).map (· + 1) ++ if least = 0 then [0] else [] := by
  have hgo : (p c && most != some 0) = true := by
    rw [h, Bool.true_and]
    exact bne_iff_ne.mpr hmost
  rw [runs, hgo, if_pos rfl]

theorem runs_some_zero (p : α → Bool) (s : List α) : runs p 0 (some 0) s = [0] := by
  cases s with
  | nil => rfl
  | cons c cs =>
    rw [runs]
    simp

theorem ends_char_cons (p : α → Bool) (c : α) (cs : List α) :
    (char p).ends (c :: cs) = if p c then [1] else [] := by
  show runs p 1 (some 1) (c :: cs) = _
  cases hp : p c with
  | false => exact runs_cons_of_neg hp 1 _ cs
  | true =>
    rw [runs_cons_of_pos hp 1 (by simp), show (some 1).map (· - 1) = some 0 from rfl,
      runs_some_zero]
    rfl

theorem ends_opt_cons (p : α → Bool) (c : α) (cs : List α) :
    (opt p).ends (c :: cs) = if p c then [1, 0] else [0] := by
  show runs p 0 (some 1) (c :: cs) = _
  cases hp : p c with
  | false => exact runs_cons_of_neg hp 0 _ cs
  | true =>
    rw [runs_cons_of_pos hp 0 (by simp), show (some 1).map (· - 1) = some 0 from rfl,
      runs_some_zero]
    rfl

theorem ends_star_cons (p : α → Bool) (c : α) (cs : List α) :
    (star p).ends (c :: cs) = if p c then ((star p).ends cs).map (· + 1) ++ [0] else [0] := by
  show runs p 0 none (c :: cs) = _
  cases hp : p c with
  | false => exact runs_cons_of_neg hp 0 _ cs
  | true =>
    rw [runs_cons_of_pos hp 0 (by simp)]
    rfl

theorem ends_plus_cons (p : α → Bool) (c : α) (cs : List α) :
    (plus p).ends (c :: cs) = if p c then ((star p).ends cs).map (· + 1) else [] := by
  show runs p 1 none (c :: cs) = _
  cases hp : p c with
  | false => exact runs_cons_of_neg hp 1 _ cs
  | true =>
    rw [runs_cons_of_pos hp 1 (by simp), if_neg Nat.one_ne_zero, List.append_nil]
    rfl

/-- An optional character is given back where the rest does not match after it. -/
theorem firstMatch_seq_opt_cons (p : α → Bool) (b : Regex α) (c : α) (cs : List α) :
    (seq (opt p) b).firstMatch (c :: cs) =
      if p c then ((b.firstMatch cs).map (· + 1)).or (b.firstMatch (c :: cs))
      else b.firstMatch (c :: cs) := by
  unfold firstMatch
  rw [ends, ends_opt_cons]
  split
  · simp [Nat.add_comm]
  · simp

/-- The matches after a run that went one character further. -/
theorem flatMap_map_succ (ns : List Nat) (b : Regex α) (c : α) (cs : List α) :
    ((ns.map (· + 1)).flatMap fun n => (b.ends ((c :: cs).drop n)).map (n + ·)) =
      (ns.flatMap fun n => (b.ends (cs.drop n)).map (n + ·)).map (· + 1) := by
  rw [List.flatMap_map, List.map_flatMap]
  refine congrArg (fun f => ns.flatMap f) (funext fun n => ?_)
  rw [List.drop_succ_cons, List.map_map]
  refine List.map_congr_left fun k _ => ?_
  show n + 1 + k = n + k + 1
  omega

/-- A run that may end is tried one character further first. -/
theorem firstMatch_seq_star_cons (p : α → Bool) (b : Regex α) (c : α) (cs : List α) :
    (seq (star p) b).firstMatch (c :: cs) =
      if p c then (((seq (star p) b).firstMatch cs).map (· + 1)).or (b.firstMatch (c :: cs))
      else b.firstMatch (c :: cs) := by
  unfold firstMatch
  rw [ends, ends, ends_star_cons]
  split
  · rw [List.flatMap_append, List.head?_append, flatMap_map_succ, List.head?_map]
    simp
  · simp

/-- `p+` is `p` and then `p*`. -/
theorem firstMatch_seq_plus_cons (p : α → Bool) (b : Regex α) (c : α) (cs : List α) :
    (seq (plus p) b).firstMatch (c :: cs) =
      if p c then ((seq (star p) b).firstMatch cs).map (· + 1) else none := by
  unfold firstMatch
  rw [ends, ends, ends_plus_cons]
  split
  · rw [flatMap_map_succ, List.head?_map]
  · rfl

-- ---------------------------------------------------------------------------
-- Runs of a class
-- ---------------------------------------------------------------------------

/-- A greedy run takes all it can. -/
theorem head?_runs (p : α → Bool) (s : List α) :
    (runs p 0 none s).head? = some (s.takeWhile p).length := by
  induction s with
  | nil => rfl
  | cons c cs ih =>
    cases hp : p c with
    | false => rw [runs_cons_of_neg hp, List.takeWhile_cons_of_neg (by simp [hp])]; rfl
    | true =>
      rw [runs_cons_of_pos hp 0 (by simp), List.takeWhile_cons_of_pos hp, List.head?_append,
        List.head?_map]
      show (((runs p 0 none cs).head?).map (· + 1)).or _ = _
      rw [ih]
      rfl

theorem head?_runs_most (p : α → Bool) (most : Nat) (s : List α) :
    (runs p 0 (some most) s).head? = some ((s.takeWhile p).take most).length := by
  induction s generalizing most with
  | nil => simp [runs]
  | cons c cs ih =>
    cases hp : p c with
    | false => rw [runs_cons_of_neg hp, List.takeWhile_cons_of_neg (by simp [hp])]; simp
    | true =>
      cases most with
      | zero => rw [runs_some_zero]; simp
      | succ most =>
        rw [runs_cons_of_pos hp 0 (by simp), List.takeWhile_cons_of_pos hp, List.head?_append,
          List.head?_map]
        show (((runs p 0 (some most) cs).head?).map (· + 1)).or _ = _
        rw [ih]
        rfl

theorem firstMatch_star (p : α → Bool) (s : List α) :
    (star p).firstMatch s = some (s.takeWhile p).length :=
  head?_runs p s

theorem firstMatch_plus (p : α → Bool) (s : List α) :
    (plus p).firstMatch s = if s.head?.any p then some (s.takeWhile p).length else none := by
  cases s with
  | nil => rfl
  | cons c cs =>
    rw [firstMatch, ends_plus_cons, List.head?_cons, Option.any_some]
    split
    · rename_i hp
      rw [List.head?_map, List.takeWhile_cons_of_pos hp]
      show ((runs p 0 none cs).head?).map (· + 1) = _
      rw [head?_runs]
      rfl
    · rfl

theorem firstMatch_many_one (p : α → Bool) (most : Nat) (s : List α) :
    (many p 1 (some (most + 1))).firstMatch s =
      if s.head?.any p then some ((s.takeWhile p).take (most + 1)).length else none := by
  cases s with
  | nil => rfl
  | cons c cs =>
    show (runs p 1 (some (most + 1)) (c :: cs)).head? = _
    rw [List.head?_cons, Option.any_some]
    cases hp : p c with
    | false => rw [runs_cons_of_neg hp]; rfl
    | true =>
      rw [runs_cons_of_pos hp 1 (by simp), if_neg Nat.one_ne_zero, List.append_nil, List.head?_map,
        List.takeWhile_cons_of_pos hp]
      show ((runs p 0 (some most) cs).head?).map (· + 1) = _
      rw [head?_runs_most]
      rfl

/-- Two runs, one after the other. -/
theorem firstMatch_seq_star_star (p q : α → Bool) (s : List α) :
    (seq (star p) (star q)).firstMatch s =
      some ((s.takeWhile p).length + ((s.dropWhile p).takeWhile q).length) := by
  induction s with
  | nil => rfl
  | cons c cs ih =>
    rw [firstMatch_seq_star_cons, ih]
    cases hp : p c with
    | false =>
      rw [List.takeWhile_cons_of_neg (by simp [hp]), List.dropWhile_cons_of_neg (by simp [hp]),
        if_neg Bool.false_ne_true, firstMatch_star, List.length_nil, Nat.zero_add]
    | true =>
      rw [List.takeWhile_cons_of_pos hp, List.dropWhile_cons_of_pos hp, if_pos rfl, Option.map_some,
        Option.some_or, List.length_cons, Nat.add_right_comm]

theorem firstMatch_seq_plus_star (p q : α → Bool) (s : List α) :
    (seq (plus p) (star q)).firstMatch s =
      if s.head?.any p then
        some ((s.takeWhile p).length + ((s.dropWhile p).takeWhile q).length)
      else none := by
  cases s with
  | nil => rfl
  | cons c cs =>
    rw [firstMatch_seq_plus_cons, firstMatch_seq_star_star, List.head?_cons, Option.any_some]
    split
    · rename_i hp
      rw [List.takeWhile_cons_of_pos hp, List.dropWhile_cons_of_pos hp, Option.map_some,
        List.length_cons, Nat.add_right_comm]
    · rfl

-- ---------------------------------------------------------------------------
-- A match lies in the text
-- ---------------------------------------------------------------------------

theorem runs_le {p : α → Bool} {least : Nat} {most : Option Nat} {s : List α} {n : Nat}
    (h : n ∈ runs p least most s) : n ≤ s.length := by
  have hstop : ∀ (least n : Nat), n ∈ (if least = 0 then [0] else []) → n = 0 := by
    intro least n hn
    split at hn
    · exact List.mem_singleton.mp hn
    · cases hn
  induction s generalizing least most n with
  | nil =>
    rw [hstop least n h]
    exact Nat.zero_le _
  | cons c cs ih =>
    rw [runs] at h
    split at h
    · rcases List.mem_append.mp h with h | h
      · obtain ⟨k, hk, rfl⟩ := List.mem_map.mp h
        exact Nat.succ_le_succ (ih hk)
      · rw [hstop least n h]
        exact Nat.zero_le _
    · rw [hstop least n h]
      exact Nat.zero_le _

theorem ends_le {r : Regex α} {s : List α} {n : Nat} (h : n ∈ r.ends s) : n ≤ s.length := by
  induction r generalizing s n with
  | many p least most => exact runs_le h
  | seq a b iha ihb =>
    obtain ⟨k, hk, hn⟩ := List.mem_flatMap.mp h
    obtain ⟨m, hm, rfl⟩ := List.mem_map.mp hn
    have hfront := iha hk
    have hback := ihb hm
    rw [List.length_drop] at hback
    omega
  | alt a b iha ihb =>
    rcases List.mem_append.mp h with h | h
    · exact iha h
    · exact ihb h
  | notNext p =>
    rw [ends] at h
    split at h
    · cases h
    · rw [List.mem_singleton.mp h]
      exact Nat.zero_le _

theorem firstMatch_le {r : Regex α} {s : List α} {n : Nat} (h : r.firstMatch s = some n) :
    n ≤ s.length :=
  ends_le (List.mem_of_mem_head? h)

-- ---------------------------------------------------------------------------
-- Cutting a text
-- ---------------------------------------------------------------------------

/-- Wherever text is left, the pattern matches some of it. -/
def Covers (r : Regex α) : Prop :=
  ∀ s, s ≠ [] → ∃ n, r.firstMatch s = some (n + 1)

theorem tokenizeFuel_of_match {r : Regex α} {s : List α} {n : Nat} (hs : s ≠ [])
    (h : r.firstMatch s = some (n + 1)) (fuel : Nat) :
    r.tokenizeFuel (fuel + 1) s = s.take (n + 1) :: r.tokenizeFuel fuel (s.drop (n + 1)) := by
  cases s with
  | nil => exact absurd rfl hs
  | cons c cs =>
    rw [tokenizeFuel, h]

@[simp] theorem tokenizeFuel_nil (r : Regex α) (fuel : Nat) : r.tokenizeFuel fuel [] = [] := by
  cases fuel with
  | zero => rfl
  | succ fuel => rfl

/-- The matches of a pattern that covers everything are the text, and none is empty. -/
theorem Covers.tokenizeFuel_spec {r : Regex α} (h : r.Covers) {fuel : Nat} {s : List α}
    (hfuel : s.length ≤ fuel) :
    (r.tokenizeFuel fuel s).flatten = s ∧ ∀ segment ∈ r.tokenizeFuel fuel s, segment ≠ [] := by
  induction fuel generalizing s with
  | zero =>
    obtain rfl := List.length_eq_zero_iff.mp (Nat.le_zero.mp hfuel)
    exact ⟨rfl, fun segment hsegment => by cases hsegment⟩
  | succ fuel ih =>
    by_cases hs : s = []
    · rw [hs, tokenizeFuel_nil]
      exact ⟨rfl, fun segment hsegment => by cases hsegment⟩
    · obtain ⟨n, hmatch⟩ := h s hs
      have hle := firstMatch_le hmatch
      obtain ⟨hflatten, hne⟩ := @ih (s.drop (n + 1)) (by rw [List.length_drop]; omega)
      rw [tokenizeFuel_of_match hs hmatch]
      refine ⟨by rw [List.flatten_cons, hflatten, List.take_append_drop], ?_⟩
      intro segment hsegment
      rcases List.mem_cons.mp hsegment with rfl | hsegment
      · exact List.ne_nil_of_length_pos (by rw [List.length_take]; omega)
      · exact hne segment hsegment

theorem Covers.tokenize_spec {r : Regex α} (h : r.Covers) (s : List α) :
    (r.tokenize s).flatten = s ∧ ∀ segment ∈ r.tokenize s, segment ≠ [] :=
  h.tokenizeFuel_spec (Nat.le_refl _)

end Regex

end Foundation
