import Mathlib.Algebra.Ring.Nat
import Mathlib.Tactic.Common

/-!
# Bodies that are polled

A body hands out frames one poll at a time: a poll is not ready yet, or it gives a
frame, an error, or the end. It may also say beforehand that its end is reached. Its
owner polls it as often as it likes, and drops it when it likes.

* `HttpBody` — a body as what its owner can do with it, in a world it shares;
* `Life` — everything that can happen to a body up to a point, with what was observed;
* `ending`, `untilEnd` — what a history of observations says about the end of a body,
  and how far it goes before that is settled;
* `Transparent` — a body around another that lets everything through.
-/

namespace Foundation.Bodies

-- ---------------------------------------------------------------------------
-- Bodies
-- ---------------------------------------------------------------------------

/-- `Poll` -/
inductive Poll (α : Type)
  | Pending
  | Ready (value : α)
deriving DecidableEq, Repr

/-- A piece of data, or the trailers. -/
inductive Frame (δ τ : Type)
  | Data (data : δ)
  | Trailers (trailers : τ)
deriving DecidableEq, Repr

/-- `data_ref` -/
def Frame.dataRef {δ τ : Type} : Frame δ τ → Option δ
  | .Data data => some data
  | .Trailers _ => none

/-- A buffer, by the bytes that are left in it. -/
class Buf (δ : Type) where
  remaining : δ → Nat

structure SizeHint where
  lower : Nat
  upper : Option Nat
deriving DecidableEq, Repr

/-- What a poll gives. -/
abbrev Polled (δ τ ε : Type) := Poll (Option (Except ε (Frame δ τ)))

/-- The bodies of a type `β`, in a world `ω`. -/
structure HttpBody (ω β δ τ ε : Type) where
  pollFrame : β → ω → Polled δ τ ε × β × ω
  isEndStream : β → ω → Bool
  sizeHint : β → ω → SizeHint
  drop : β → ω → ω

variable {ω ρ β γ δ τ ε : Type}

-- ---------------------------------------------------------------------------
-- What is observed
-- ---------------------------------------------------------------------------

/-- A poll, and whether the body says then that its end is reached. -/
structure Observed (δ τ ε : Type) where
  poll : Polled δ τ ε
  ended : Bool
deriving DecidableEq

/-- How a body ends. -/
inductive Ending
  | finished
  | failed
deriving DecidableEq, Repr

/-- What a poll settles; an error counts before an end. -/
def Observed.settles (observed : Observed δ τ ε) : Option Ending :=
  match observed.poll with
  | .Ready (some (.error _)) => some .failed
  | .Ready none => some .finished
  | _ => if observed.ended then some .finished else none

/-- The end of the body, seen one way or the other. -/
def Observed.atEnd (observed : Observed δ τ ε) : Bool :=
  observed.ended || match observed.poll with
    | .Ready none => true
    | _ => false

/-- The bytes in the frame of a poll. -/
def Observed.bytes [Buf δ] (observed : Observed δ τ ε) : Nat :=
  match observed.poll with
  | .Ready (some (.ok frame)) => (frame.dataRef.map Buf.remaining).getD 0
  | _ => 0

/-- The bytes of a history. -/
def totalBytes [Buf δ] (seen : List (Observed δ τ ε)) : Nat := (seen.map Observed.bytes).sum

/-- The first thing a history settles. -/
def ending (seen : List (Observed δ τ ε)) : Option Ending := seen.findSome? Observed.settles

/-- A history up to what settles it. -/
def untilEnd : List (Observed δ τ ε) → List (Observed δ τ ε)
  | [] => []
  | observed :: rest =>
    match observed.settles with
    | some _ => [observed]
    | none => observed :: untilEnd rest

theorem totalBytes_concat [Buf δ] (seen : List (Observed δ τ ε)) (observed : Observed δ τ ε) :
    totalBytes (seen ++ [observed]) = totalBytes seen + observed.bytes := by
  simp [totalBytes]

theorem ending_concat (seen : List (Observed δ τ ε)) (observed : Observed δ τ ε) :
    ending (seen ++ [observed]) = (ending seen).or observed.settles := by
  unfold ending
  rw [List.findSome?_append]
  rcases hsettles : observed.settles with _ | ending
  · simp [hsettles]
  · simp [hsettles]

/-- What is not settled goes on. -/
theorem untilEnd_of_none {seen : List (Observed δ τ ε)} (h : ending seen = none) :
    untilEnd seen = seen := by
  induction seen with
  | nil => rfl
  | cons observed rest ih =>
    unfold ending at h
    rw [List.findSome?_cons] at h
    unfold untilEnd
    rcases hsettles : observed.settles with _ | ending
    · rw [hsettles] at h
      dsimp only
      rw [ih h]
    · rw [hsettles] at h
      exact absurd h (by simp)

/-- What settles a history is part of it. -/
theorem untilEnd_last {seen : List (Observed δ τ ε)} {observed : Observed δ τ ε} {how : Ending}
    (h : ending seen = none) (hsettles : observed.settles = some how) :
    untilEnd (seen ++ [observed]) = seen ++ [observed] := by
  induction seen with
  | nil =>
    rw [List.nil_append]
    unfold untilEnd
    rw [hsettles]
  | cons first rest ih =>
    unfold ending at h
    rw [List.findSome?_cons] at h
    rw [List.cons_append]
    unfold untilEnd
    rcases hfirst : first.settles with _ | how'
    · rw [hfirst] at h
      dsimp only
      rw [ih h]
    · rw [hfirst] at h
      exact absurd h (by simp)

/-- What is settled stays so. -/
theorem untilEnd_concat {seen : List (Observed δ τ ε)} {how : Ending} (h : ending seen = some how)
    (observed : Observed δ τ ε) : untilEnd (seen ++ [observed]) = untilEnd seen := by
  induction seen with
  | nil => exact absurd h (by simp [ending])
  | cons first rest ih =>
    unfold ending at h
    rw [List.findSome?_cons] at h
    rw [List.cons_append]
    unfold untilEnd
    rcases hsettles : first.settles with _ | how'
    · rw [hsettles] at h
      dsimp only
      rw [ih h]
    · rfl

-- ---------------------------------------------------------------------------
-- Lives
-- ---------------------------------------------------------------------------

/-- What can have happened to a body and its world: it is asked once whether it is at
its end, then polled again and again, and between two polls the others in its world do
what they do. -/
inductive Life (body : HttpBody ω β δ τ ε) (others : ω → ω → Prop) (b₀ : β) (w₀ : ω) :
    List (Observed δ τ ε) → β → ω → Prop
  | start : Life body others b₀ w₀ [⟨.Pending, body.isEndStream b₀ w₀⟩] b₀ w₀
  | poll {seen b w poll b' w'} (hlife : Life body others b₀ w₀ seen b w)
      (hpoll : body.pollFrame b w = (poll, b', w')) :
      Life body others b₀ w₀ (seen ++ [⟨poll, body.isEndStream b' w'⟩]) b' w'
  | others {seen b w w'} (hlife : Life body others b₀ w₀ seen b w) (hothers : others w w') :
      Life body others b₀ w₀ seen b w'

/-- A body around another: whatever is done with it is done with the one inside, whose
answers it gives. -/
structure Transparent (outer : HttpBody (ρ × ω) γ δ τ ε) (inner : HttpBody ω β δ τ ε)
    (inside : γ → β) : Prop where
  poll : ∀ b w, (outer.pollFrame b w).1 = (inner.pollFrame (inside b) w.2).1
  state : ∀ b w, inside (outer.pollFrame b w).2.1 = (inner.pollFrame (inside b) w.2).2.1
  world : ∀ b w, (outer.pollFrame b w).2.2.2 = (inner.pollFrame (inside b) w.2).2.2
  isEndStream : ∀ b w, outer.isEndStream b w = inner.isEndStream (inside b) w.2
  sizeHint : ∀ b w, outer.sizeHint b w = inner.sizeHint (inside b) w.2
  drop : ∀ b w, (outer.drop b w).2 = inner.drop (inside b) w.2

/-- What is observed of the outer body is a history of the inner one. -/
theorem Transparent.life {outer : HttpBody (ρ × ω) γ δ τ ε} {inner : HttpBody ω β δ τ ε}
    {inside : γ → β} (h : Transparent outer inner inside) {others : ρ × ω → ρ × ω → Prop} {b₀ b : γ}
    {w₀ w : ρ × ω} {seen : List (Observed δ τ ε)} (hlife : Life outer others b₀ w₀ seen b w) :
    Life inner (fun _ _ => True) (inside b₀) w₀.2 seen (inside b) w.2 := by
  induction hlife with
  | start =>
    rw [h.isEndStream]
    exact .start
  | @poll seen b w poll b' w' _ hpoll ih =>
    have hinner : inner.pollFrame (inside b) w.2 = (poll, inside b', w'.2) := by
      refine Prod.ext ?_ (Prod.ext ?_ ?_)
      · rw [← h.poll, hpoll]
      · rw [← h.state, hpoll]
      · rw [← h.world, hpoll]
    rw [h.isEndStream]
    exact .poll ih hinner
  | others _ _ ih => exact .others ih trivial

end Foundation.Bodies
