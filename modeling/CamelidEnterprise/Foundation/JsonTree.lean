import CamelidEnterprise.Foundation.Json
import Mathlib.Algebra.Field.Rat
import Mathlib.Data.List.Forall2

/-!
# JSON values with exact numbers

A `Document` holds what a program's number type holds. A `Tree` is the value as it was
sent: its numbers are the numerals that were written, each with the rational number it
stands for. A `Reader` is the part of a JSON library that turns one into the other: it
may round a numeral, refuse one that is out of range, and refuse nesting that is too deep.

* `Tree.document` — reading a tree;
* `documents_eq_some`, `memberDocuments_eq_some` — reading item by item;
* `valuesOf` — the values of a name, and that reading keeps them apart.
-/

namespace Foundation.Json

-- ---------------------------------------------------------------------------
-- Numerals
-- ---------------------------------------------------------------------------

/-- A number as it is written. -/
structure Numeral where
  negative : Bool
  whole : Nat
  /-- the digits after the point -/
  fraction : Option (List (Fin 10))
  exponent : Option Int
deriving DecidableEq, Repr

/-- Digits after a point. -/
def fractionValue : List (Fin 10) → ℚ
  | [] => 0
  | digit :: rest => (digit.val + fractionValue rest) / 10

/-- The number a numeral stands for. -/
def Numeral.value (n : Numeral) : ℚ :=
  (if n.negative then -1 else 1) * (n.whole + fractionValue (n.fraction.getD [])) *
    10 ^ n.exponent.getD 0

/-- Digits only. -/
def Numeral.Plain (n : Numeral) : Prop :=
  n.negative = false ∧ n.fraction = none ∧ n.exponent = none

instance (n : Numeral) : Decidable n.Plain :=
  inferInstanceAs (Decidable (_ ∧ _ ∧ _))

def Number.isZero : Number → Bool
  | .PosInt n => decide (n = 0)
  | .NegInt n => decide (n = 0)
  | .Float bits => decide (bits % 2 ^ 63 = 0)

-- ---------------------------------------------------------------------------
-- Trees
-- ---------------------------------------------------------------------------

/-- A JSON value as it was sent. -/
inductive Tree
  | null
  | bool (b : Bool)
  | number (n : Numeral)
  | string (s : Text)
  | array (items : List Tree)
  | object (members : List (Text × Tree))

/-- How a library reads numbers, and how deep it reads. -/
structure Reader where
  number : Numeral → Option Number
  nesting : Nat
  nesting_deep : 3 ≤ nesting
  /-- digits that fit 64 bits are an integer -/
  number_plain : ∀ n, n.Plain → n.whole < 2 ^ 64 → number n = some (.PosInt n.whole)
  /-- and nothing else is a natural number -/
  number_posInt : ∀ n k, number n = some (.PosInt k) → n.Plain ∧ n.whole = k
  /-- zero is in range, and stays zero -/
  number_zero : ∀ n, n.value = 0 → ∃ read, number n = some read ∧ read.isZero = true

mutual

/-- The document a tree is read as, with so many levels left. -/
def Tree.document (reader : Reader) (levels : Nat) : Tree → Option Document
  | .null => some .null
  | .bool b => some (.bool b)
  | .number n => (reader.number n).map .number
  | .string s => some (.string s)
  | .array items =>
    if levels = 0 then none else (documents reader (levels - 1) items).map .array
  | .object members =>
    if levels = 0 then none else (memberDocuments reader (levels - 1) members).map .object

def documents (reader : Reader) (levels : Nat) : List Tree → Option (List Document)
  | [] => some []
  | item :: rest => do
    let first ← item.document reader levels
    let later ← documents reader levels rest
    some (first :: later)

def memberDocuments (reader : Reader) (levels : Nat) :
    List (Text × Tree) → Option (List (Text × Document))
  | [] => some []
  | (name, member) :: rest => do
    let first ← member.document reader levels
    let later ← memberDocuments reader levels rest
    some ((name, first) :: later)

end

variable {reader : Reader} {levels : Nat}

theorem document_object (members : List (Text × Tree)) :
    (Tree.object members).document reader (levels + 1) =
      (memberDocuments reader levels members).map .object := by
  rw [Tree.document, if_neg (Nat.succ_ne_zero _), Nat.add_sub_cancel]

theorem document_array (items : List Tree) :
    (Tree.array items).document reader (levels + 1) =
      (documents reader levels items).map .array := by
  rw [Tree.document, if_neg (Nat.succ_ne_zero _), Nat.add_sub_cancel]

/-- A member is read under its name. -/
def ReadsMember (reader : Reader) (levels : Nat) (member : Text × Tree)
    (doc : Text × Document) : Prop :=
  member.1 = doc.1 ∧ member.2.document reader levels = some doc.2

theorem documents_eq_some {items : List Tree} {docs : List Document} :
    documents reader levels items = some docs ↔
      List.Forall₂ (fun item doc => item.document reader levels = some doc) items docs := by
  induction items generalizing docs with
  | nil =>
    rw [documents, List.forall₂_nil_left_iff, Option.some_inj]
    exact eq_comm
  | cons item rest ih =>
    rw [documents]
    constructor
    · intro h
      obtain ⟨first, hfirst, h⟩ := Option.bind_eq_some_iff.mp h
      obtain ⟨later, hlater, h⟩ := Option.bind_eq_some_iff.mp h
      obtain rfl := Option.some.inj h
      exact .cons hfirst (ih.mp hlater)
    · intro h
      obtain ⟨first, later, hfirst, hlater, rfl⟩ := List.forall₂_cons_left_iff.mp h
      refine Option.bind_eq_some_iff.mpr ⟨first, hfirst, ?_⟩
      exact Option.bind_eq_some_iff.mpr ⟨later, ih.mpr hlater, rfl⟩

theorem memberDocuments_eq_some {members : List (Text × Tree)} {docs : List (Text × Document)} :
    memberDocuments reader levels members = some docs ↔
      List.Forall₂ (ReadsMember reader levels) members docs := by
  induction members generalizing docs with
  | nil =>
    rw [memberDocuments, List.forall₂_nil_left_iff, Option.some_inj]
    exact eq_comm
  | cons member rest ih =>
    obtain ⟨name, value⟩ := member
    rw [memberDocuments]
    constructor
    · intro h
      obtain ⟨first, hfirst, h⟩ := Option.bind_eq_some_iff.mp h
      obtain ⟨later, hlater, h⟩ := Option.bind_eq_some_iff.mp h
      obtain rfl := Option.some.inj h
      exact .cons ⟨rfl, hfirst⟩ (ih.mp hlater)
    · intro h
      obtain ⟨⟨key, first⟩, later, ⟨hname, hfirst⟩, hlater, rfl⟩ := List.forall₂_cons_left_iff.mp h
      obtain rfl : name = key := hname
      refine Option.bind_eq_some_iff.mpr ⟨first, hfirst, ?_⟩
      exact Option.bind_eq_some_iff.mpr ⟨later, ih.mpr hlater, rfl⟩

/-- Members that can all be read are read together. -/
theorem exists_readsMember {members : List (Text × Tree)}
    (h : ∀ member ∈ members, ∃ doc, member.2.document reader levels = some doc) :
    ∃ docs, List.Forall₂ (ReadsMember reader levels) members docs := by
  induction members with
  | nil => exact ⟨[], .nil⟩
  | cons member rest ih =>
    obtain ⟨⟨first, hfirst⟩, hrest⟩ := List.forall_mem_cons.mp h
    obtain ⟨later, hlater⟩ := ih hrest
    exact ⟨(member.1, first) :: later, .cons ⟨rfl, hfirst⟩ hlater⟩

-- ---------------------------------------------------------------------------
-- Names
-- ---------------------------------------------------------------------------

/-- The values of a name, in their order. -/
def valuesOf {α : Type} (name : Text) (members : List (Text × α)) : List α :=
  (members.filter fun member => member.1 = name).map Prod.snd

theorem mem_valuesOf {α : Type} {name : Text} {members : List (Text × α)} {value : α} :
    value ∈ valuesOf name members ↔ (name, value) ∈ members := by
  simp [valuesOf]

/-- A name has the values read of the values it has. -/
theorem valuesOf_reads {members : List (Text × Tree)} {docs : List (Text × Document)}
    (h : List.Forall₂ (ReadsMember reader levels) members docs) (name : Text) :
    List.Forall₂ (fun value doc => value.document reader levels = some doc)
      (valuesOf name members) (valuesOf name docs) := by
  induction h with
  | nil => exact .nil
  | @cons member doc members docs hfirst _ ih =>
    obtain ⟨hname, hvalue⟩ := hfirst
    unfold valuesOf at ih ⊢
    by_cases hkey : member.1 = name
    · rw [List.filter_cons_of_pos (by simpa using hkey),
        List.filter_cons_of_pos (by simpa [← hname] using hkey), List.map_cons, List.map_cons]
      exact .cons hvalue ih
    · rw [List.filter_cons_of_neg (by simpa using hkey),
        List.filter_cons_of_neg (by simpa [← hname] using hkey)]
      exact ih

/-! Which trees are read as which documents -/

theorem document_eq_null {tree : Tree} :
    tree.document reader levels = some .null ↔ tree = .null := by
  cases tree with
  | null | bool | number | string => simp [Tree.document]
  | array | object =>
    rw [Tree.document]
    split
    · simp
    · simp

theorem document_eq_bool {tree : Tree} {b : Bool} :
    tree.document reader levels = some (.bool b) ↔ tree = .bool b := by
  cases tree with
  | null | bool | number | string => simp [Tree.document]
  | array | object =>
    rw [Tree.document]
    split
    · simp
    · simp

theorem document_eq_string {tree : Tree} {s : Text} :
    tree.document reader levels = some (.string s) ↔ tree = .string s := by
  cases tree with
  | null | bool | number | string => simp [Tree.document]
  | array | object =>
    rw [Tree.document]
    split
    · simp
    · simp

theorem document_eq_number {tree : Tree} {n : Number} :
    tree.document reader levels = some (.number n) ↔
      ∃ numeral, tree = .number numeral ∧ reader.number numeral = some n := by
  cases tree with
  | null | bool | number | string => simp [Tree.document]
  | array | object =>
    rw [Tree.document]
    split
    · simp
    · simp

theorem document_eq_array {tree : Tree} {docs : List Document} :
    tree.document reader (levels + 1) = some (.array docs) ↔
      ∃ items, tree = .array items ∧
        List.Forall₂ (fun item doc => item.document reader levels = some doc) items docs := by
  cases tree with
  | null | bool | number | string => simp [Tree.document]
  | array items => simp [document_array, documents_eq_some]
  | object members => simp [document_object]

theorem document_eq_object {tree : Tree} {docs : List (Text × Document)} :
    tree.document reader (levels + 1) = some (.object docs) ↔
      ∃ members, tree = .object members ∧
        List.Forall₂ (ReadsMember reader levels) members docs := by
  cases tree with
  | null | bool | number | string => simp [Tree.document]
  | array items => simp [document_array]
  | object members => simp [document_object, memberDocuments_eq_some]

/-- Each item of the second list stands beside the result of one of the first. -/
theorem mapM_eq_some {α β : Type} {f : α → Option β} {as : List α} {bs : List β} :
    as.mapM f = some bs ↔ List.Forall₂ (fun a b => f a = some b) as bs := by
  induction as generalizing bs with
  | nil =>
    rw [List.mapM_nil, List.forall₂_nil_left_iff]
    exact Option.some_inj.trans eq_comm
  | cons a as ih =>
    rw [List.mapM_cons]
    constructor
    · intro h
      obtain ⟨b, hb, h⟩ := Option.bind_eq_some_iff.mp h
      obtain ⟨rest, hrest, h⟩ := Option.bind_eq_some_iff.mp h
      obtain rfl := Option.some.inj h
      exact .cons hb (ih.mp hrest)
    · intro h
      obtain ⟨b, rest, hb, hrest, rfl⟩ := List.forall₂_cons_left_iff.mp h
      refine Option.bind_eq_some_iff.mpr ⟨b, hb, ?_⟩
      exact Option.bind_eq_some_iff.mpr ⟨rest, ih.mpr hrest, rfl⟩

/-- What holds of the second list beside a third holds of the first beside it. -/
theorem forall₂_through {α β γ : Type} {R : α → β → Prop} {S : β → γ → Prop} {T : α → γ → Prop}
    (h : ∀ a b c, R a b → (S b c ↔ T a c)) {as : List α} {bs : List β} {cs : List γ}
    (hab : List.Forall₂ R as bs) : List.Forall₂ S bs cs ↔ List.Forall₂ T as cs := by
  induction hab generalizing cs with
  | nil => rw [List.forall₂_nil_left_iff, List.forall₂_nil_left_iff]
  | @cons a b as bs hfirst _ ih =>
    rw [List.forall₂_cons_left_iff, List.forall₂_cons_left_iff]
    constructor
    · rintro ⟨c, rest, hc, hrest, rfl⟩
      exact ⟨c, rest, (h a b c hfirst).mp hc, ih.mp hrest, rfl⟩
    · rintro ⟨c, rest, hc, hrest, rfl⟩
      exact ⟨c, rest, (h a b c hfirst).mpr hc, ih.mpr hrest, rfl⟩

end Foundation.Json
