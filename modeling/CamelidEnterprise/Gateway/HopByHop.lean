import CamelidEnterprise.Foundation.Headers

/-!
# Camelid Enterprise — hop-by-hop headers

`remove_hop_by_hop` of `crates/gateway/src/lib.rs`: what is meant for one connection
only is taken out of a request before it is forwarded, and out of its response. The
names are a fixed list and those that the message itself nominates in its `connection`
header, which is one of them.

Key results: `removeHopByHop_exact`, what is removed and what is kept, and
`removeHopByHop_again`, that nothing is left to remove.
-/

namespace CamelidEnterprise.Gateway

open Foundation Foundation.Headers

-- ---------------------------------------------------------------------------
-- The source
-- ---------------------------------------------------------------------------

/-- The bytes of an ASCII string. -/
def ascii (s : String) : List UInt8 := s.toList.map fun c => UInt8.ofNat c.toNat

def isComma (byte : UInt8) : Bool := byte = 44

/-- A space or a tab. -/
def isBlank (byte : UInt8) : Bool := byte = 32 || byte = 9

/-- `trim_optional_whitespace` -/
def trimOptionalWhitespace (value : List UInt8) : List UInt8 := strip isBlank value

/-- The names `remove_hop_by_hop` removes from every message. -/
def hopByHopNames : List String :=
  ["connection", "keep-alive", "proxy-authenticate", "proxy-authorization", "proxy-connection",
    "te", "trailer", "transfer-encoding", "upgrade"]

section Removal

variable (library : HeaderLibrary)

/-- A name as the source writes it. -/
def staticName (name : String) : Option library.HeaderName := library.fromBytes (ascii name)

/-- `headers.get_all(CONNECTION)` -/
def connectionValues (headers : library.HeaderMap) : List (List UInt8) :=
  match staticName library "connection" with
  | some name => library.getAll headers name
  | none => []

/-- `connection_headers`: what the values nominate. -/
def connectionHeaders (headers : library.HeaderMap) : List library.HeaderName :=
  ((connectionValues library headers).flatMap fun value => value.splitOnP isComma).filterMap
    fun name => library.fromBytes (trimOptionalWhitespace name)

/-- `remove_hop_by_hop` -/
def removeHopByHop (headers : library.HeaderMap) : library.HeaderMap :=
  let nominated := connectionHeaders library headers
  library.removeAll (library.removeAll headers nominated) (hopByHopNames.filterMap (staticName library))

-- ---------------------------------------------------------------------------
-- What is removed
-- ---------------------------------------------------------------------------

/-- A name of the list. -/
def Standard (name : library.HeaderName) : Prop :=
  ∃ written ∈ hopByHopNames, staticName library written = some name

/-- One of the items of the value is the name, in whatever case. -/
def Nominates (value : List UInt8) (name : library.HeaderName) : Prop :=
  ∃ item token, Listed isComma isBlank value item ∧ token.map lower = item.map lower ∧
    library.fromBytes token = some name

/-- A value of the `connection` header nominates the name. -/
def Nominated (headers : library.HeaderMap) (name : library.HeaderName) : Prop :=
  ∃ value ∈ connectionValues library headers, Nominates library value name

/-- `after` is `before` without its hop-by-hop headers. -/
structure HopByHopRemoved (before after : library.HeaderMap) : Prop where
  standard : ∀ name, Standard library name → library.getAll after name = []
  nominated : ∀ name, Nominated library before name → library.getAll after name = []
  /-- every other name has the values it had, in their order -/
  kept : ∀ name, ¬Standard library name → ¬Nominated library before name →
    library.getAll after name = library.getAll before name

variable {library}

theorem nominates_iff {value : List UInt8} {name : library.HeaderName} :
    Nominates library value name ↔
      ∃ item ∈ items isComma isBlank value, library.fromBytes item = some name := by
  unfold Nominates
  constructor
  · rintro ⟨item, token, hlisted, hcase, hname⟩
    exact ⟨item, listed_iff.mpr hlisted, (library.fromBytes_case hcase).symm.trans hname⟩
  · rintro ⟨item, hitem, hname⟩
    exact ⟨item, item, listed_iff.mp hitem, rfl, hname⟩

theorem mem_connectionHeaders {headers : library.HeaderMap} {name : library.HeaderName} :
    name ∈ connectionHeaders library headers ↔ Nominated library headers name := by
  unfold connectionHeaders Nominated
  simp only [nominates_iff, items, List.mem_filterMap, List.mem_flatMap, List.mem_map]
  constructor
  · rintro ⟨piece, ⟨value, hvalue, hpiece⟩, hname⟩
    exact ⟨value, hvalue, _, ⟨piece, hpiece, rfl⟩, hname⟩
  · rintro ⟨value, hvalue, _, ⟨piece, hpiece, rfl⟩, hname⟩
    exact ⟨piece, ⟨value, hvalue, hpiece⟩, hname⟩

theorem mem_standardNames {name : library.HeaderName} :
    name ∈ hopByHopNames.filterMap (staticName library) ↔ Standard library name :=
  List.mem_filterMap

/-- The values of a name afterwards, whichever list it is on. -/
theorem getAll_removeHopByHop (headers : library.HeaderMap) (name : library.HeaderName) :
    library.getAll (removeHopByHop library headers) name =
      if name ∈ hopByHopNames.filterMap (staticName library) then []
      else if name ∈ connectionHeaders library headers then []
      else library.getAll headers name := by
  unfold removeHopByHop
  dsimp only
  rw [library.getAll_removeAll, library.getAll_removeAll]

theorem getAll_standard {headers : library.HeaderMap} {name : library.HeaderName}
    (h : Standard library name) : library.getAll (removeHopByHop library headers) name = [] := by
  rw [getAll_removeHopByHop, if_pos (mem_standardNames.mpr h)]

theorem getAll_kept {headers : library.HeaderMap} {name : library.HeaderName}
    (hstandard : ¬Standard library name) (hnominated : ¬Nominated library headers name) :
    library.getAll (removeHopByHop library headers) name = library.getAll headers name := by
  rw [getAll_removeHopByHop, if_neg (mt mem_standardNames.mp hstandard),
    if_neg (mt mem_connectionHeaders.mp hnominated)]

/-- **Hop-by-hop removal**: a name of the list and a nominated one have no value left,
and every other name has all it had, in order. -/
theorem removeHopByHop_exact (library : HeaderLibrary) (headers : library.HeaderMap) :
    HopByHopRemoved library headers (removeHopByHop library headers) where
  standard _ h := getAll_standard h
  nominated name h := by
    rw [getAll_removeHopByHop, if_pos (mem_connectionHeaders.mpr h), ite_self]
  kept _ hstandard hnominated := getAll_kept hstandard hnominated

/-- What is left nominates nothing, so a second removal finds nothing. -/
theorem removeHopByHop_again (headers : library.HeaderMap) (name : library.HeaderName) :
    library.getAll (removeHopByHop library (removeHopByHop library headers)) name =
      library.getAll (removeHopByHop library headers) name := by
  have hvalues : connectionValues library (removeHopByHop library headers) = [] := by
    unfold connectionValues
    split
    · rename_i connection hconnection
      exact getAll_standard ⟨"connection", List.mem_cons_self, hconnection⟩
    · rfl
  by_cases hstandard : Standard library name
  · rw [getAll_standard hstandard, getAll_standard hstandard]
  · refine getAll_kept hstandard ?_
    rintro ⟨value, hvalue, -⟩
    rw [hvalues] at hvalue
    exact absurd hvalue List.not_mem_nil

example :
    let headers : tokens.HeaderMap := [(ascii "connection", ascii "X-Private, \x00,"),
      (ascii "x-private", ascii "1"), (ascii "x-camelid-lane", ascii "a"),
      (ascii "connection", ascii "upgrade\t,X-LAST"), (ascii "x-last", ascii "2"),
      (ascii "x-camelid-lane", ascii "b")]
    let values name := tokens.getAll (removeHopByHop tokens headers) (ascii name)
    values "x-camelid-lane" = [ascii "a", ascii "b"] ∧ values "x-private" = [] ∧
      values "x-last" = [] ∧ values "connection" = [] := by
  decide +kernel

end Removal

end CamelidEnterprise.Gateway
