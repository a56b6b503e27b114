import Mathlib.Algebra.Ring.Nat
import Mathlib.Data.List.DropRight

/-!
# Header maps and the lists in their values

A header map has several values under one name, in order. `HeaderLibrary` is such a map
with its names: which bytes are a name is the library's affair, their case is not part
of it.

The value of a header may be a list of items between separators, with blanks around
them. `listed_iff` says which items a splitting and stripping of the value meets:
exactly those that stand in it.
-/

namespace Foundation.Headers

-- ---------------------------------------------------------------------------
-- Items between separators
-- ---------------------------------------------------------------------------

section Items

variable {α : Type} {separator blank : α → Bool}

/-- Without the blanks at both ends. -/
def strip (blank : α → Bool) (xs : List α) : List α := (xs.dropWhile blank).rdropWhile blank

/-- The items of a list: each piece between separators, stripped. -/
def items (separator blank : α → Bool) (value : List α) : List (List α) :=
  (value.splitOnP separator).map (strip blank)

/-- A list that does not start with a blank, and does not end with one. -/
structure Bare (blank : α → Bool) (xs : List α) : Prop where
  head : ∀ x, xs.head? = some x → blank x = false
  last : ∀ x, xs.getLast? = some x → blank x = false

/-- `piece` stands in the list between two separators, or an end of the list. -/
structure Between (separator : α → Bool) (value before piece after : List α) : Prop where
  eq : value = before ++ piece ++ after
  plain : ∀ x ∈ piece, separator x = false
  opens : ∀ x, before.getLast? = some x → separator x = true
  closes : ∀ x, after.head? = some x → separator x = true

/-- `item` is written in the list, blanks around it or not. -/
def Listed (separator blank : α → Bool) (value item : List α) : Prop :=
  ∃ before front back after, Between separator value before (front ++ item ++ back) after ∧
    (∀ x ∈ front ++ back, blank x = true) ∧ Bare blank item

theorem dropWhile_eq_iff {xs ys : List α} : xs.dropWhile blank = ys ↔
    ∃ front, xs = front ++ ys ∧ (∀ x ∈ front, blank x = true) ∧
      ∀ x, ys.head? = some x → blank x = false := by
  constructor
  · rintro rfl
    refine ⟨xs.takeWhile blank, List.takeWhile_append_dropWhile.symm,
      fun x hx => List.mem_takeWhile_imp hx, fun x hx => ?_⟩
    have hhead := List.head?_dropWhile_not blank xs
    rw [hx] at hhead
    exact hhead
  · rintro ⟨front, rfl, hfront, hhead⟩
    rw [List.dropWhile_append_of_pos hfront]
    cases ys with
    | nil => rfl
    | cons y ys => exact List.dropWhile_cons_of_neg (by simp [hhead y rfl])

theorem rdropWhile_eq_iff {xs ys : List α} : xs.rdropWhile blank = ys ↔
    ∃ back, xs = ys ++ back ∧ (∀ x ∈ back, blank x = true) ∧
      ∀ x, ys.getLast? = some x → blank x = false := by
  unfold List.rdropWhile
  rw [List.reverse_eq_iff, dropWhile_eq_iff]
  constructor
  · rintro ⟨front, hxs, hfront, hlast⟩
    refine ⟨front.reverse, ?_, fun x hx => hfront x (List.mem_reverse.mp hx), ?_⟩
    · rw [← List.reverse_inj, hxs, List.reverse_append, List.reverse_reverse]
    · rwa [List.head?_reverse] at hlast
  · rintro ⟨back, rfl, hback, hlast⟩
    refine ⟨back.reverse, List.reverse_append, fun x hx => hback x (List.mem_reverse.mp hx), ?_⟩
    rwa [List.head?_reverse]

/-- What is left of a list without its blanks. -/
theorem strip_eq_iff {xs item : List α} : strip blank xs = item ↔
    ∃ front back, xs = front ++ item ++ back ∧ (∀ x ∈ front ++ back, blank x = true) ∧
      Bare blank item := by
  constructor
  · intro h
    obtain ⟨front, hxs, hfront, hhead⟩ := dropWhile_eq_iff.mp (rfl : xs.dropWhile blank = _)
    obtain ⟨back, hrest, hback, hlast⟩ := rdropWhile_eq_iff.mp h
    refine ⟨front, back, by rw [List.append_assoc, ← hrest, ← hxs],
      List.forall_mem_append.mpr ⟨hfront, hback⟩, fun x hx => hhead x ?_, hlast⟩
    rw [hrest, List.head?_append, hx]
    rfl
  · rintro ⟨front, back, rfl, hblanks, hbare⟩
    obtain ⟨hfront, hback⟩ := List.forall_mem_append.mp hblanks
    unfold strip
    cases item with
    | nil =>
      -- nothing but blanks
      rw [List.append_nil, List.dropWhile_eq_nil_iff.mpr hblanks]
      rfl
    | cons x item =>
      have hdrop : (front ++ (x :: item ++ back)).dropWhile blank = x :: item ++ back :=
        dropWhile_eq_iff.mpr ⟨front, rfl, hfront, hbare.head⟩
      rw [List.append_assoc, hdrop]
      exact rdropWhile_eq_iff.mpr ⟨back, rfl, hback, hbare.last⟩

/-- A piece of a list is followed by a separator, or is the last one. By induction on
the length: the first piece ends at the first separator. -/
theorem between_of_mem {value piece : List α} (h : piece ∈ value.splitOnP separator) :
    ∃ before after, Between separator value before piece after := by
  induction hlength : value.length using Nat.strong_induction_on generalizing value with
  | _ n ih =>
    obtain ⟨first, hvalue, hfirst, hhead⟩ :=
      dropWhile_eq_iff.mp (rfl : value.dropWhile (fun x => !separator x) = _)
    have hplain : ∀ x ∈ first, separator x = false := by simpa using hfirst
    rcases hrest : value.dropWhile fun x => !separator x with _ | ⟨s, rest⟩
    · rw [hrest, List.append_nil] at hvalue
      rw [hvalue, List.splitOnP_eq_singleton hplain] at h
      obtain rfl := List.mem_singleton.mp h
      exact ⟨[], [], by simpa using hvalue, hplain, by simp, by simp⟩
    · rw [hrest] at hvalue hhead
      have hs : separator s = true := by simpa using hhead s rfl
      rw [hvalue, List.splitOnP_append_cons_of_forall_mem hplain s hs] at h
      rcases List.mem_cons.mp h with rfl | hlater
      · exact ⟨[], s :: rest, by simpa using hvalue, hplain, by simp, by simpa using hs⟩
      · have hshorter : rest.length < n := by
          rw [← hlength, hvalue, List.length_append, List.length_cons]
          omega
        obtain ⟨before, after, hbetween⟩ := ih _ hshorter hlater rfl
        refine ⟨first ++ s :: before, after, ?_, hbetween.plain, fun x hx => ?_, hbetween.closes⟩
        · rw [hvalue, hbetween.eq]
          simp
        · rw [List.getLast?_append, List.getLast?_cons] at hx
          rcases hbefore : before.getLast? with _ | last
          · rw [hbefore] at hx
            exact (Option.some.inj hx : s = x) ▸ hs
          · rw [hbefore] at hx
            exact hbetween.opens x (hbefore.trans hx)

/-- What stands between separators is a piece. -/
theorem Between.mem {value before piece after : List α}
    (h : Between separator value before piece after) : piece ∈ value.splitOnP separator := by
  have hbefore : ∃ pieces, value.splitOnP separator = pieces ++ (piece ++ after).splitOnP separator := by
    rw [h.eq, List.append_assoc]
    rcases List.eq_nil_or_concat before with rfl | ⟨front, s, rfl⟩
    · exact ⟨[], rfl⟩
    · rw [List.concat_append, List.splitOnP_append_cons _ _ (h.opens s (by simp))]
      exact ⟨_, rfl⟩
  obtain ⟨pieces, hpieces⟩ := hbefore
  rw [hpieces]
  refine List.mem_append_right _ ?_
  rcases hafter : after with _ | ⟨s, rest⟩
  · rw [List.append_nil, List.splitOnP_eq_singleton h.plain]
    exact List.mem_singleton_self _
  · have hs : separator s = true := h.closes s (by rw [hafter]; rfl)
    rw [List.splitOnP_append_cons_of_forall_mem h.plain s hs]
    exact List.mem_cons_self

/-- **Items**: splitting and stripping meets the items written in the list. -/
theorem listed_iff {value item : List α} :
    item ∈ items separator blank value ↔ Listed separator blank value item := by
  unfold items Listed
  rw [List.mem_map]
  constructor
  · rintro ⟨piece, hpiece, hstrip⟩
    obtain ⟨before, after, hbetween⟩ := between_of_mem hpiece
    obtain ⟨front, back, rfl, hblanks, hbare⟩ := strip_eq_iff.mp hstrip
    exact ⟨before, front, back, after, hbetween, hblanks, hbare⟩
  · rintro ⟨before, front, back, after, hbetween, hblanks, hbare⟩
    exact ⟨_, hbetween.mem, strip_eq_iff.mpr ⟨front, back, rfl, hblanks, hbare⟩⟩

end Items

-- ---------------------------------------------------------------------------
-- Header maps
-- ---------------------------------------------------------------------------

/-- An ASCII letter in lower case. -/
def lower (byte : UInt8) : UInt8 := if 65 ≤ byte && byte ≤ 90 then byte + 32 else byte

/-- A library of header maps. -/
structure HeaderLibrary where
  HeaderName : Type
  HeaderMap : Type
  decideName : DecidableEq HeaderName
  /-- the name the bytes are, if they are one -/
  fromBytes : List UInt8 → Option HeaderName
  /-- the values under a name, in order -/
  getAll : HeaderMap → HeaderName → List (List UInt8)
  /-- the map without a name and its values -/
  remove : HeaderMap → HeaderName → HeaderMap
  fromBytes_case : ∀ {bytes bytes'}, bytes.map lower = bytes'.map lower →
    fromBytes bytes = fromBytes bytes'
  getAll_remove : ∀ headers name other,
    getAll (remove headers name) other = if other = name then [] else getAll headers other

namespace HeaderLibrary

variable (library : HeaderLibrary)

instance : DecidableEq library.HeaderName := library.decideName

/-- The map without any of these names. -/
def removeAll (headers : library.HeaderMap) (names : List library.HeaderName) : library.HeaderMap :=
  names.foldl library.remove headers

/-- Each removal leaves the other names alone. -/
theorem getAll_removeAll (names : List library.HeaderName) (headers : library.HeaderMap)
    (name : library.HeaderName) : library.getAll (library.removeAll headers names) name =
      if name ∈ names then [] else library.getAll headers name := by
  induction names generalizing headers with
  | nil => rfl
  | cons first rest ih =>
    unfold removeAll
    rw [List.foldl_cons]
    refine (ih _).trans ?_
    rw [library.getAll_remove]
    by_cases hrest : name ∈ rest
    · rw [if_pos hrest, if_pos (List.mem_cons_of_mem _ hrest)]
    · by_cases hfirst : name = first
      · rw [if_neg hrest, if_pos hfirst, if_pos (List.mem_cons.mpr (Or.inl hfirst))]
      · rw [if_neg hrest, if_neg hfirst, if_neg (by simp [hrest, hfirst])]

end HeaderLibrary

/-- The characters of a token. -/
def isTokenByte (byte : UInt8) : Bool :=
  48 ≤ byte && byte ≤ 57 || 65 ≤ byte && byte ≤ 90 || 97 ≤ byte && byte ≤ 122 ||
    [33, 35, 36, 37, 38, 39, 42, 43, 45, 46, 94, 95, 96, 124, 126].contains byte

theorem isTokenByte_lower (byte : UInt8) : isTokenByte (lower byte) = isTokenByte byte := by
  have hall : ∀ n : Fin 256, isTokenByte (lower (UInt8.ofNat n)) = isTokenByte (UInt8.ofNat n) := by
    decide +kernel
  simpa using hall ⟨byte.toNat, byte.toNat_lt⟩

/-- The name is a token of at most 65535 bytes, in lower case, and the map a list. -/
def tokens : HeaderLibrary where
  HeaderName := List UInt8
  HeaderMap := List (List UInt8 × List UInt8)
  decideName := inferInstance
  fromBytes bytes :=
    if 0 < bytes.length ∧ bytes.length < 2 ^ 16 ∧ bytes.all isTokenByte then some (bytes.map lower)
    else none
  getAll headers name := (headers.filter fun header => header.1 = name).map Prod.snd
  remove headers name := headers.filter fun header => header.1 ≠ name
  fromBytes_case {bytes bytes'} hcase := by
    have hlength : bytes.length = bytes'.length := by
      simpa using congrArg List.length hcase
    have hall : bytes.all isTokenByte = bytes'.all isTokenByte := by
      have hboth := congrArg (fun spelled => spelled.all isTokenByte) hcase
      simpa [List.all_map, Function.comp_def, isTokenByte_lower] using hboth
    rw [hlength, hall, hcase]
  getAll_remove headers name other := by
    rw [List.filter_filter]
    split
    · rename_i hother
      rw [List.filter_eq_nil_iff.mpr (by simp [hother])]
      rfl
    · rename_i hother
      congr 1
      refine List.filter_congr fun header _ => ?_
      by_cases hname : header.1 = other
      · simp [hname, hother]
      · simp [hname]

end Foundation.Headers
