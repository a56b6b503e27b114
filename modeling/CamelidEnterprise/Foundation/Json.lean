import Mathlib.Data.Char
import Mathlib.Data.List.Lex

/-!
# JSON texts and the values read from them

A `Document` is what a JSON text says: the members of an object in their order, a
repeated name as often as it is written. A `Value` is what a program keeps of it: an
object is a map, sorted by name, and of a repeated name the last member counts.

* `Map.insert`, `Map.get` — a sorted map, and what one insertion changes;
* `Document.toValue` — reading; `get_collect` says which member a name stands for;
* `Written` — a document with the content of a value: the digits of a float are the
  writer's affair.

`Parser` is a JSON library: a reading of whole texts, a reading of the top level of
an object that skips values without looking into them, and a writer.
-/

namespace Foundation.Json

/-- A name or a string. -/
abbrev Text := List Char

/-- A number that fits 64 bits, or the bits of a finite double. -/
inductive Number
  | PosInt (n : Nat)
  | NegInt (n : Int)
  | Float (bits : Nat)
deriving DecidableEq, Repr

/-- What a JSON text says. -/
inductive Document
  | null
  | bool (b : Bool)
  | number (n : Number)
  | string (s : Text)
  | array (items : List Document)
  | object (members : List (Text × Document))

/-- What a program keeps of it. -/
inductive Value
  | Null
  | Bool (b : Bool)
  | Number (n : Number)
  | String (s : Text)
  | Array (items : List Value)
  | Object (map : List (Text × Value))

-- ---------------------------------------------------------------------------
-- Maps
-- ---------------------------------------------------------------------------

namespace Map

variable {α : Type}

/-- The value of a name. -/
def get (name : Text) : List (Text × α) → Option α
  | [] => none
  | (key, value) :: rest => if key = name then some value else get name rest

/-- Insertion into a sorted map, in place of what the name had. -/
def insert (name : Text) (value : α) : List (Text × α) → List (Text × α)
  | [] => [(name, value)]
  | (key, old) :: rest =>
    if name = key then (key, value) :: rest
    else if name < key then (name, value) :: (key, old) :: rest
    else (key, old) :: insert name value rest

/-- The names of a map are strictly ascending. -/
def Sorted (map : List (Text × α)) : Prop := map.Pairwise fun a b => a.1 < b.1

@[simp] theorem get_nil (name : Text) : get name ([] : List (Text × α)) = none := rfl

theorem get_insert (name : Text) (value : α) (map : List (Text × α)) (other : Text) :
    get other (insert name value map) = if name = other then some value else get other map := by
  induction map with
  | nil => rfl
  | cons entry rest ih =>
    obtain ⟨key, old⟩ := entry
    unfold insert
    by_cases hkey : name = key
    · subst hkey
      by_cases hother : name = other
      · simp [get, hother]
      · simp [get, hother]
    · rw [if_neg hkey]
      by_cases hless : name < key
      · rw [if_pos hless]
        by_cases hother : name = other
        · simp [get, hother]
        · simp [get, hother]
      · rw [if_neg hless]
        show (if key = other then some old else get other (insert name value rest)) = _
        rw [ih]
        by_cases hother : name = other
        · have hne : key ≠ other := fun h => hkey (hother.trans h.symm)
          simp [hother, hne]
        · simp [get, hother]

theorem mem_insert {name : Text} {value : α} {map : List (Text × α)} {entry : Text × α}
    (hentry : entry ∈ insert name value map) : entry = (name, value) ∨ entry ∈ map := by
  induction map with
  | nil => exact Or.inl (List.mem_singleton.mp hentry)
  | cons first rest ih =>
    obtain ⟨key, old⟩ := first
    unfold insert at hentry
    split at hentry
    · rename_i hkey
      subst hkey
      rcases List.mem_cons.mp hentry with rfl | hrest
      · exact Or.inl rfl
      · exact Or.inr (List.mem_cons_of_mem _ hrest)
    · split at hentry
      · rcases List.mem_cons.mp hentry with rfl | hrest
        · exact Or.inl rfl
        · exact Or.inr hrest
      · rcases List.mem_cons.mp hentry with rfl | hrest
        · exact Or.inr (List.mem_cons_self)
        · rcases ih hrest with heq | hmem
          · exact Or.inl heq
          · exact Or.inr (List.mem_cons_of_mem _ hmem)

theorem Sorted.insert {name : Text} {value : α} {map : List (Text × α)} (hsorted : Sorted map) :
    Sorted (Map.insert name value map) := by
  induction map with
  | nil => exact List.pairwise_singleton _ _
  | cons first rest ih =>
    obtain ⟨key, old⟩ := first
    obtain ⟨hfirst, hrest⟩ := List.pairwise_cons.mp hsorted
    unfold Map.insert
    split
    · exact List.pairwise_cons.mpr ⟨hfirst, hrest⟩
    · rename_i hne
      split
      · rename_i hless
        refine List.pairwise_cons.mpr ⟨fun entry hentry => ?_, hsorted⟩
        rcases List.mem_cons.mp hentry with rfl | hmem
        · exact hless
        · exact lt_trans hless (hfirst entry hmem)
      · rename_i hless
        refine List.pairwise_cons.mpr ⟨fun entry hentry => ?_, ih hrest⟩
        rcases mem_insert hentry with rfl | hmem
        · exact lt_of_le_of_ne (not_lt.mp hless) (Ne.symm hne)
        · exact hfirst entry hmem

/-- In a sorted map an entry is the value of its name. -/
theorem Sorted.get_eq {map : List (Text × α)} (hsorted : Sorted map) {name : Text} {value : α}
    (hmem : (name, value) ∈ map) : get name map = some value := by
  induction map with
  | nil => exact absurd hmem List.not_mem_nil
  | cons first rest ih =>
    obtain ⟨key, old⟩ := first
    obtain ⟨hfirst, hrest⟩ := List.pairwise_cons.mp hsorted
    rcases List.mem_cons.mp hmem with heq | hlater
    · obtain ⟨rfl, rfl⟩ := Prod.mk.inj heq
      simp [get]
    · have hless : key < name := hfirst _ hlater
      simp only [get, if_neg (ne_of_lt hless)]
      exact ih hrest hlater

theorem mem_of_get {map : List (Text × α)} {name : Text} {value : α}
    (h : get name map = some value) : (name, value) ∈ map := by
  induction map with
  | nil => exact absurd h (by simp)
  | cons first rest ih =>
    obtain ⟨key, first⟩ := first
    unfold get at h
    split at h
    · rename_i hkey
      rw [← hkey, ← Option.some.inj h]
      exact List.mem_cons_self
    · exact List.mem_cons_of_mem _ (ih h)

end Map

-- ---------------------------------------------------------------------------
-- Reading
-- ---------------------------------------------------------------------------

mutual

/-- The value of a document. -/
def Document.toValue : Document → Value
  | .null => .Null
  | .bool b => .Bool b
  | .number n => .Number n
  | .string s => .String s
  | .array items => .Array (toValues items)
  | .object members => .Object (collect [] members)

def toValues : List Document → List Value
  | [] => []
  | item :: rest => item.toValue :: toValues rest

/-- The members of an object, one after the other. -/
def collect (map : List (Text × Value)) : List (Text × Document) → List (Text × Value)
  | [] => map
  | (name, member) :: rest => collect (Map.insert name member.toValue map) rest

end

/-- The last member of a name. -/
def lastNamed (name : Text) : List (Text × Document) → Option Document
  | [] => none
  | (key, member) :: rest =>
    (lastNamed name rest).or (if key = name then some member else none)

theorem lastNamed_cons (name key : Text) (member : Document) (rest : List (Text × Document)) :
    lastNamed name ((key, member) :: rest) =
      (lastNamed name rest).or (if key = name then some member else none) := rfl

theorem get_collect (name : Text) (members : List (Text × Document)) :
    ∀ map, Map.get name (collect map members) =
      ((lastNamed name members).map Document.toValue).or (Map.get name map) := by
  induction members with
  | nil => intro map; rfl
  | cons first rest ih =>
    obtain ⟨key, member⟩ := first
    intro map
    show Map.get name (collect (Map.insert key member.toValue map) rest) = _
    rw [ih, Map.get_insert, lastNamed_cons]
    cases hlast : lastNamed name rest with
    | some last => simp
    | none =>
      by_cases hkey : key = name
      · simp [hkey]
      · simp [hkey]

theorem collect_sorted (members : List (Text × Document)) :
    ∀ map, Map.Sorted map → Map.Sorted (collect map members) := by
  induction members with
  | nil => exact fun map hsorted => hsorted
  | cons first rest ih =>
    obtain ⟨key, member⟩ := first
    exact fun map hsorted => ih _ hsorted.insert

/-- No member of a name means none is the last. -/
theorem lastNamed_eq_none {name : Text} {members : List (Text × Document)} :
    lastNamed name members = none ↔ ∀ member ∈ members, member.1 ≠ name := by
  induction members with
  | nil => simp [lastNamed]
  | cons first rest ih =>
    obtain ⟨key, member⟩ := first
    rw [lastNamed_cons, Option.or_eq_none_iff, ih, List.forall_mem_cons, and_comm]
    by_cases hkey : key = name
    · simp [hkey]
    · simp [hkey]

/-- Each entry of the second list stands beside one of the first. -/
theorem forall₂_mem_right {α β : Type} {R : α → β → Prop} {as : List α} {bs : List β}
    (h : List.Forall₂ R as bs) {b : β} (hb : b ∈ bs) : ∃ a ∈ as, R a b := by
  induction h with
  | nil => exact absurd hb List.not_mem_nil
  | @cons a b' as bs hfirst _ ih =>
    rcases List.mem_cons.mp hb with rfl | hlater
    · exact ⟨a, List.mem_cons_self, hfirst⟩
    · obtain ⟨a', ha', hrel⟩ := ih hlater
      exact ⟨a', List.mem_cons_of_mem _ ha', hrel⟩

-- ---------------------------------------------------------------------------
-- Writing
-- ---------------------------------------------------------------------------

/-- A document with the content of a value. -/
inductive Written : Value → Document → Prop
  | null : Written .Null .null
  | bool (b : Bool) : Written (.Bool b) (.bool b)
  | posInt (n : Nat) : Written (.Number (.PosInt n)) (.number (.PosInt n))
  | negInt (n : Int) : Written (.Number (.NegInt n)) (.number (.NegInt n))
  | float (bits written : Nat) : Written (.Number (.Float bits)) (.number (.Float written))
  | string (s : Text) : Written (.String s) (.string s)
  | array {values : List Value} {items : List Document} (hitems : List.Forall₂ Written values items) :
      Written (.Array values) (.array items)
  | object {map : List (Text × Value)} {members : List (Text × Document)}
      (hnames : map.map Prod.fst = members.map Prod.fst)
      (hvalues : List.Forall₂ Written (map.map Prod.snd) (members.map Prod.snd)) :
      Written (.Object map) (.object members)

/-- Every member that was written is an entry of the map. -/
theorem Written.entry {map : List (Text × Value)} {members : List (Text × Document)}
    (hwritten : Written (.Object map) (.object members)) {member : Text × Document}
    (hmember : member ∈ members) : ∃ value, (member.1, value) ∈ map ∧ Written value member.2 := by
  obtain ⟨hnames, hvalues⟩ : map.map Prod.fst = members.map Prod.fst ∧
      List.Forall₂ Written (map.map Prod.snd) (members.map Prod.snd) := by
    cases hwritten with
    | object hnames hvalues => exact ⟨hnames, hvalues⟩
  clear hwritten
  induction members generalizing map with
  | nil => exact absurd hmember List.not_mem_nil
  | cons first rest ih =>
    cases map with
    | nil => cases hvalues
    | cons entry entries =>
      simp only [List.map_cons, List.cons.injEq, List.forall₂_cons] at hnames hvalues
      rcases List.mem_cons.mp hmember with rfl | hlater
      · exact ⟨entry.2, by rw [← hnames.1]; exact List.mem_cons_self, hvalues.1⟩
      · obtain ⟨value, hentry, hvalue⟩ := ih hlater hnames.2 hvalues.2
        exact ⟨value, List.mem_cons_of_mem _ hentry, hvalue⟩

/-- A JSON library. -/
structure Parser where
  /-- the text read as a value, before repeated names are settled -/
  document : List UInt8 → Option Document
  /-- the members of an object as they are met, each value as its bytes: skipping a
  value asks less of it than reading it -/
  entries : List UInt8 → Option (List (Text × List UInt8))
  toVec : Value → Option (List UInt8)
  /-- what can be read whole can be met member by member, and is the same -/
  entries_object : ∀ {body members}, document body = some (.object members) →
    ∃ raws, entries body = some raws ∧
      List.Forall₂ (fun raw member => raw.1 = member.1 ∧ document raw.2 = some member.2) raws members
  entries_other : ∀ {body doc}, document body = some doc → (∀ members, doc ≠ .object members) →
    entries body = none
  document_toVec : ∀ {value body}, toVec value = some body →
    ∃ doc, document body = some doc ∧ Written value doc

/-- The text read as a value: the whole of it. -/
def Parser.fromSlice (parser : Parser) (body : List UInt8) : Option Value :=
  (parser.document body).map Document.toValue

end Foundation.Json
