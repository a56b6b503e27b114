import Mathlib.Tactic.Common

/-!
# HTTP requests

A request as a handler is given it: its head, and a body that is still to be read.
Header values are bytes; those of visible ASCII read as text.

What is assumed of the libraries underneath:

* a header map is the list of its values, in which the order under one name is kept;
* a body is known by the bytes that come of it and whether it breaks off, so that what was
  read of it before that is not told apart;
* `toBytes` looks at its limit first.
-/

namespace Foundation.Http

/-- Header names are kept in lower case. -/
abbrev HeaderMap := List (String × List UInt8)

/-- The first value of a header. -/
def HeaderMap.get (headers : HeaderMap) (name : String) : Option (List UInt8) :=
  (headers.find? fun header => header.1 = name).map Prod.snd

/-- One value in place of those the header had. -/
def HeaderMap.insert (headers : HeaderMap) (name : String) (value : List UInt8) : HeaderMap :=
  headers.filter (fun header => header.1 ≠ name) ++ [(name, value)]

/-- A header value of visible ASCII, blanks and tabs, as text. -/
def toStr (value : List UInt8) : Option (List Char) :=
  if value.all fun byte => byte = 9 || (32 ≤ byte && byte < 127) then
    some (value.map fun byte => Char.ofNat byte.toNat)
  else none

/-- A number in a header. -/
def decimal (n : Nat) : List UInt8 :=
  (Nat.toDigits 10 n).map fun digit => UInt8.ofNat digit.toNat

/-- What comes of a body: its bytes, and whether its stream broke off after them. -/
structure Body where
  bytes : List UInt8
  broken : Bool
deriving DecidableEq, Repr

/-- A body held in memory. -/
def Body.whole (bytes : List UInt8) : Body := ⟨bytes, false⟩

structure Request where
  method : String
  path : String
  headers : HeaderMap
  body : Body
deriving DecidableEq, Repr

/-- Why a body was not read. -/
inductive BodyError
  | LengthLimit
  | Broken
deriving DecidableEq, Repr

/-- `to_bytes`: the whole body, if it is no longer than the limit. -/
def toBytes (body : Body) (limit : Nat) : Except BodyError (List UInt8) :=
  if limit < body.bytes.length then .error .LengthLimit
  else if body.broken then .error .Broken
  else .ok body.bytes

theorem toBytes_eq_ok {body : Body} {limit : Nat} {bytes : List UInt8} :
    toBytes body limit = .ok bytes ↔
      bytes.length ≤ limit ∧ body = .whole bytes := by
  obtain ⟨received, broken⟩ := body
  unfold toBytes Body.whole
  by_cases hlong : limit < received.length
  · simp only [hlong, if_true, reduceCtorEq, false_iff, not_and, Body.mk.injEq]
    rintro hlength rfl
    omega
  · cases broken with
    | true => simp [hlong]
    | false =>
      simp only [hlong, if_false, Bool.false_eq_true, Except.ok.injEq, Body.mk.injEq, and_true]
      constructor
      · rintro rfl
        exact ⟨by omega, rfl⟩
      · rintro ⟨-, rfl⟩
        rfl

end Foundation.Http
