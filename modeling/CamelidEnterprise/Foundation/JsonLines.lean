import CamelidEnterprise.Foundation.Binary
import CamelidEnterprise.Foundation.Json
import CamelidEnterprise.Foundation.Text
import Mathlib.Data.List.TakeWhile

/-!
# Records on lines

Objects built of fields, a JSON library that prints them, and files of objects that stand on a
line each: what is printed without control characters in it is what the lines of the file are,
and what is read on such a line under a name is what was written under it.
-/

namespace Foundation.Json

-- ---------------------------------------------------------------------------
-- Objects of fields
-- ---------------------------------------------------------------------------

namespace Map

variable {α : Type}

/-- The fields put into a map, one after the other. -/
def insertAll (fields map : List (Text × α)) : List (Text × α) :=
  fields.foldl (fun map field => insert field.1 field.2 map) map

/-- Fields under different names: each has its own value, and others are left alone. -/
theorem get_insertAll {fields : List (Text × α)} (hnodup : (fields.map Prod.fst).Nodup)
    (map : List (Text × α)) :
    (∀ field ∈ fields, get field.1 (insertAll fields map) = some field.2) ∧
      ∀ name, name ∉ fields.map Prod.fst → get name (insertAll fields map) = get name map := by
  unfold insertAll
  induction fields generalizing map with
  | nil => exact ⟨fun field h => absurd h List.not_mem_nil, fun name _ => rfl⟩
  | cons first fields ih =>
    rw [List.map_cons, List.nodup_cons] at hnodup
    obtain ⟨hthese, hothers⟩ := ih hnodup.2 (insert first.1 first.2 map)
    rw [List.foldl_cons]
    constructor
    · intro field hfield
      rcases List.mem_cons.mp hfield with rfl | hfield
      · rw [hothers _ hnodup.1, get_insert, if_pos rfl]
      · exact hthese field hfield
    · intro name hname
      rw [List.map_cons, List.mem_cons, not_or] at hname
      rw [hothers name hname.2, get_insert, if_neg (Ne.symm hname.1)]

theorem sorted_insertAll (fields : List (Text × α)) {map : List (Text × α)} (hsorted : Sorted map) :
    Sorted (insertAll fields map) := by
  unfold insertAll
  induction fields generalizing map with
  | nil => exact hsorted
  | cons first fields ih => exact ih hsorted.insert

end Map

/-- What is read under a name is what was written under it. -/
theorem Written.get {map : List (Text × Value)} {members : List (Text × Document)}
    (hwritten : Written (.Object map) (.object members)) (hsorted : Map.Sorted map) (name : Text) :
    Option.Rel Written (Map.get name map) (lastNamed name members) := by
  obtain ⟨hnames, hvalues⟩ : map.map Prod.fst = members.map Prod.fst ∧
      List.Forall₂ Written (map.map Prod.snd) (members.map Prod.snd) := by
    cases hwritten with
    | object hnames hvalues => exact ⟨hnames, hvalues⟩
  clear hwritten
  induction members generalizing map with
  | nil =>
    obtain rfl := List.map_eq_nil_iff.mp hnames
    exact .none
  | cons first rest ih =>
    obtain ⟨key, doc⟩ := first
    cases map with
    | nil => cases hvalues
    | cons entry entries =>
      obtain ⟨key', value⟩ := entry
      simp only [List.map_cons, List.cons.injEq, List.forall₂_cons] at hnames hvalues
      obtain ⟨rfl, hnames⟩ := hnames
      obtain ⟨hfirst, hrest⟩ := List.pairwise_cons.mp hsorted
      have hlater := ih hrest hnames hvalues.2
      rw [lastNamed_cons, Map.get]
      by_cases hkey : key' = name
      · -- the names behind it are greater
        have hnone : Map.get name entries = none := by
          rw [Option.eq_none_iff_forall_ne_some]
          intro other hother
          exact absurd (hkey ▸ hfirst _ (Map.mem_of_get hother)) (lt_irrefl _)
        rw [hnone] at hlater
        rw [if_pos hkey, if_pos hkey]
        cases hlast : lastNamed name rest with
        | none => exact .some hvalues.1
        | some last =>
          rw [hlast] at hlater
          cases hlater
      · rw [if_neg hkey, if_neg hkey, Option.or_none]
        exact hlater

-- ---------------------------------------------------------------------------
-- Lines
-- ---------------------------------------------------------------------------

/-- A double as `to_value` makes a number of it. -/
def jsonF64 (bits : Nat) : Value :=
  if Format.double.isFinite bits then .Number (.Float bits) else .Null

/-- A text that may be missing. -/
def jsonOption (text : Option Text) : Value := (text.map Value.String).getD .Null

/-- A library that prints. -/
structure Library extends Parser where
  /-- `to_string` -/
  print : Value → Text

/-- An object is printed on one line, and read back from it as it was. -/
structure Library.Line (library : Library) (map : List (Text × Value)) : Prop where
  /-- control characters are escaped -/
  plain : ∀ c ∈ library.print (.Object map), 32 ≤ c.toNat
  opened : (library.print (.Object map)).head? = some '\x7b'
  /-- a number that is out of range is not read at all -/
  read : ∃ members,
    library.document (Utf8.encode (library.print (.Object map))) = some (.object members) ∧
      Written (.Object map) (.object members) ∧
      ∀ name bits, (name, .number (.Float bits)) ∈ members → Format.double.isFinite bits = true

/-- A value with its line feed. -/
def Library.record (library : Library) (value : Value) : Text := library.print value ++ ['\n']

namespace Library.Line

variable {library : Library} {map : List (Text × Value)}

theorem not_mem (h : library.Line map) {c : Char} (hc : c.toNat < 32) :
    c ∉ library.print (.Object map) := fun hmem => absurd (h.plain c hmem) (by omega)

/-- A line that is closed. -/
theorem lines_append (h : library.Line map) (rest : Text) :
    Text.lines (library.record (.Object map) ++ rest) =
      library.print (.Object map) :: Text.lines rest := by
  have hfeed : '\n' ∉ library.print (.Object map) := h.not_mem (by decide)
  have hreturn : (library.print (.Object map)).getLast? ≠ some '\r' :=
    fun hlast => h.not_mem (by decide) (List.mem_of_getLast? hlast)
  unfold Text.lines Library.record
  rw [List.append_assoc, List.singleton_append, Text.linesFrom_append hfeed, List.nil_append,
    Text.linesFrom, if_pos rfl]
  unfold Text.chomp
  rw [if_neg hreturn]

/-- There is something on the line. -/
theorem trim_ne_nil (h : library.Line map) : Text.trim (library.print (.Object map)) ≠ [] := by
  obtain ⟨rest, hrest⟩ := List.head?_eq_some_iff.mp h.opened
  have hbrace : Text.whiteSpace '\x7b' = false := by decide
  unfold Text.trim
  rw [hrest, List.dropWhile_cons_of_neg (by rw [hbrace]; decide)]
  intro hnil
  have hall := List.dropWhile_eq_nil_iff.mp (List.reverse_eq_nil_iff.mp hnil) '\x7b' (by simp)
  rw [hbrace] at hall
  exact absurd hall (by decide)

/-- What is read on a line. -/
theorem fromSlice (h : library.Line map) (hsorted : Map.Sorted map) : ∃ object,
    library.fromSlice (Utf8.encode (library.print (.Object map))) = some (.Object object) ∧
      ∀ name, Option.Rel (fun value read => ∃ doc, Written value doc ∧ read = doc.toValue ∧
        ∀ bits, doc = .number (.Float bits) → Format.double.isFinite bits = true)
        (Map.get name map) (Map.get name object) := by
  obtain ⟨members, hdoc, hwritten, hfinite⟩ := h.read
  refine ⟨collect [] members, ?_, fun name => ?_⟩
  · unfold Parser.fromSlice
    rw [hdoc]
    rfl
  · have hmember : ∀ doc, lastNamed name members = some doc → (name, doc) ∈ members := by
      intro doc hlast
      clear hwritten hfinite hdoc
      induction members with
      | nil => cases hlast
      | cons first rest ih =>
        obtain ⟨key, first⟩ := first
        rw [lastNamed_cons, Option.or_eq_some_iff] at hlast
        rcases hlast with hlast | ⟨-, hfirst⟩
        · exact List.mem_cons_of_mem _ (ih hlast)
        · split at hfirst
          · rename_i hkey
            rw [hkey, Option.some.inj hfirst]
            exact List.mem_cons_self
          · cases hfirst
    have hrel := hwritten.get hsorted name
    rw [get_collect, Map.get_nil, Option.or_none]
    cases hlast : lastNamed name members with
    | none =>
      rw [hlast] at hrel
      cases hmap : Map.get name map with
      | none => exact .none
      | some value =>
        rw [hmap] at hrel
        cases hrel
    | some doc =>
      rw [hlast] at hrel
      cases hmap : Map.get name map with
      | none =>
        rw [hmap] at hrel
        cases hrel
      | some value =>
        rw [hmap] at hrel
        cases hrel with
        | some hvalue =>
          refine .some ⟨doc, hvalue, rfl, ?_⟩
          rintro bits rfl
          exact hfinite name bits (hmember _ hlast)

end Library.Line

/-- The lines of a file of objects are what was printed. -/
theorem lines_records {library : Library} {maps : List (List (Text × Value))}
    (hlines : ∀ map ∈ maps, library.Line map) :
    Text.lines (maps.flatMap fun map => library.record (.Object map)) =
      maps.map fun map => library.print (.Object map) := by
  induction maps with
  | nil => rfl
  | cons map maps ih =>
    rw [List.flatMap_cons, (hlines map List.mem_cons_self).lines_append,
      ih fun map hmap => hlines map (List.mem_cons_of_mem _ hmap), List.map_cons]

end Foundation.Json
