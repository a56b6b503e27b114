import CamelidEnterprise.Foundation.Loops

/-!
# Loops that fill a buffer

`Returns` is a postcondition of a computation that returns, with a rule for each way it is
put together. A buffer has a fixed count of elements, and an index outside of it is a
panic. A loop that fills one is followed by what it has written so far: `Written value done out` says that the
buffer holds `value i` at each index that is `done`. A store of the right value adds its
index and takes none away, in whatever order the loop goes, so a loop that reaches every
index has built `Vector.ofFn value` (`Written.eq_ofFn`).
-/

namespace Foundation

namespace Outcome

variable {ε α β σ : Type}

/-- The computation returns, and what it returns satisfies the postcondition. -/
def Returns (x : Outcome ε α) (post : α → Prop) : Prop := ∃ a, x = .ok a ∧ post a

theorem returns_ok {a : α} {post : α → Prop} (h : post a) : (.ok a : Outcome ε α).Returns post :=
  ⟨a, rfl, h⟩

theorem Returns.mono {x : Outcome ε α} {post post' : α → Prop} (h : x.Returns post)
    (hpost : ∀ a, post a → post' a) : x.Returns post' := by
  obtain ⟨a, hx, ha⟩ := h
  exact ⟨a, hx, hpost a ha⟩

theorem Returns.bind {x : Outcome ε α} {f : α → Outcome ε β} {post : α → Prop} {post' : β → Prop}
    (hx : x.Returns post) (hf : ∀ a, post a → (f a).Returns post') : (x >>= f).Returns post' := by
  obtain ⟨a, rfl, ha⟩ := hx
  exact hf a ha

theorem Returns.eq_ok {x : Outcome ε α} {a : α} (h : x.Returns (· = a)) : x = .ok a := by
  obtain ⟨_, hx, rfl⟩ := h
  exact hx

/-- The rule for a counted loop: an invariant that every turn returns with, one higher. -/
theorem returns_foldlM_range (inv : ℕ → σ → Prop) {f : σ → ℕ → Outcome ε σ} {n : ℕ} {s : σ}
    (hstart : inv 0 s) (hstep : ∀ i < n, ∀ s, inv i s → (f s i).Returns (inv (i + 1))) :
    ((List.range n).foldlM f s).Returns (inv n) := by
  induction n with
  | zero => exact returns_ok hstart
  | succ n ih =>
    rw [List.range_succ, List.foldlM_append]
    refine (ih fun i hi => hstep i (Nat.lt_succ_of_lt hi)).bind fun s' hinv => ?_
    rw [List.foldlM_cons]
    exact (hstep n (Nat.lt_succ_self n) s' hinv).bind fun t ht => returns_ok ht

/-- A loop whose every turn lengthens the list by the same count. -/
theorem returns_foldlM_longer {k : ℕ} {f : List α → β → Outcome ε (List α)} {xs : List β}
    (hstep : ∀ x ∈ xs, ∀ out, (f out x).Returns fun out' => out'.length = out.length + k)
    (out : List α) : (xs.foldlM f out).Returns fun out' => out'.length = out.length + xs.length * k := by
  induction xs generalizing out with
  | nil => exact returns_ok (by simp)
  | cons x xs ih =>
    rw [List.foldlM_cons]
    refine (hstep x List.mem_cons_self out).bind fun out' hout' => ?_
    refine (ih (fun y hy => hstep y (List.mem_cons_of_mem _ hy)) out').mono fun out'' hout'' => ?_
    rw [hout'', hout', List.length_cons, Nat.succ_mul]
    omega

/-- `for i in 0..n { out.push(value(i)); }` -/
def pushes (n : ℕ) (value : ℕ → Outcome ε α) (out : List α) : Outcome ε (List α) :=
  (List.range n).foldlM (fun out i => do
    let v ← value i
    .ok (out ++ [v])) out

theorem pushes_returns {n : ℕ} {value : ℕ → Outcome ε α}
    (hvalue : ∀ i < n, (value i).Returns fun _ => True) (out : List α) :
    (pushes n value out).Returns fun out' => out'.length = out.length + n := by
  refine (returns_foldlM_longer (k := 1) (fun i hi out => ?_) out).mono fun out' h => ?_
  · refine (hvalue i (List.mem_range.mp hi)).bind fun v _ => returns_ok ?_
    rw [List.length_append, List.length_singleton]
  · rw [h, List.length_range, Nat.mul_one]

/-- A loop that appends what it fetches is a loop that collects it, whatever else it
carries along. -/
theorem foldlM_gathers {f : List α × σ → β → Outcome ε (List α × σ)}
    {fetch : β → Outcome ε (List α)} {xs : List β}
    (hstep : ∀ x ∈ xs, ∀ out s, ∃ s', f (out, s) x = (fetch x).map fun row => (out ++ row, s'))
    (out : List α) (s : σ) :
    ∃ s', xs.foldlM f (out, s) = (xs.mapM fetch).map fun rows => (out ++ rows.flatten, s') := by
  induction xs generalizing out s with
  | nil => exact ⟨s, by simp [List.mapM_nil]⟩
  | cons x xs ih =>
    obtain ⟨s', hx⟩ := hstep x List.mem_cons_self out s
    have hrest : ∀ y ∈ xs, ∀ out s, ∃ s', f (out, s) y =
        (fetch y).map fun row => (out ++ row, s') :=
      fun y hy => hstep y (List.mem_cons_of_mem _ hy)
    rw [List.foldlM_cons, mapM_cons, hx]
    rcases fetch x with row | e | k
    · obtain ⟨s'', htail⟩ := ih hrest (out ++ row) s'
      refine ⟨s'', ?_⟩
      rw [map_ok, ok_bind, ok_bind, htail]
      rcases xs.mapM fetch with rows | e | k
      · simp
      · rfl
      · rfl
    · exact ⟨s, rfl⟩
    · exact ⟨s, rfl⟩

end Outcome

namespace Buffer

variable {ε α : Type} {n : ℕ}

/-- The element at an index, the default one past the end. -/
def peek [Inhabited α] (xs : Vector α n) (i : ℕ) : α := xs[i]?.getD default

theorem peek_of_lt [Inhabited α] (xs : Vector α n) {i : ℕ} (h : i < n) : peek xs i = xs[i] := by
  unfold peek
  rw [Vector.getElem?_eq_getElem h, Option.getD_some]

/-- `copy_from_slice(&xs[start..start + len])` -/
def slice [Inhabited α] (xs : Vector α n) (start len : ℕ) : Vector α len :=
  Vector.ofFn fun i => peek xs (start + i)

theorem peek_slice [Inhabited α] (xs : Vector α n) (start : ℕ) {len i : ℕ} (h : i < len) :
    peek (slice xs start len) i = peek xs (start + i) := by
  rw [peek_of_lt _ h]
  exact Vector.getElem_ofFn _

/-- `xs[i]` -/
def index (xs : Vector α n) (i : ℕ) : Outcome ε α := Outcome.orPanic xs[i]?

theorem index_of_lt [Inhabited α] (xs : Vector α n) {i : ℕ} (h : i < n) :
    index xs i = (.ok (peek xs i) : Outcome ε α) := by
  unfold index
  rw [peek_of_lt xs h, Vector.getElem?_eq_getElem h]
  rfl

/-- `xs[i] = value;` -/
def store (xs : Vector α n) (i : ℕ) (value : α) : Outcome ε (Vector α n) :=
  if h : i < n then .ok (xs.set i value h) else .fault .panic

theorem store_of_lt (xs : Vector α n) {i : ℕ} (h : i < n) (value : α) :
    store xs i value = (.ok (xs.set i value) : Outcome ε (Vector α n)) := dif_pos h

/-- The buffer holds the value of every index that is done. -/
def Written (value : ℕ → α) (done : ℕ → Prop) (out : Vector α n) : Prop :=
  ∀ i (h : i < n), done i → out[i] = value i

theorem written_none (value : ℕ → α) (out : Vector α n) : Written value (fun _ => False) out :=
  fun _ _ h => h.elim

theorem Written.mono {value : ℕ → α} {done done' : ℕ → Prop} {out : Vector α n}
    (h : Written value done out) (hle : ∀ i, done' i → done i) : Written value done' out :=
  fun i hi hdone => h i hi (hle i hdone)

theorem Written.set {value : ℕ → α} {done : ℕ → Prop} {out : Vector α n}
    (h : Written value done out) {i : ℕ} (hi : i < n) :
    Written value (fun j => done j ∨ j = i) (out.set i (value i)) := by
  intro j hj hdone
  by_cases heq : i = j
  · subst heq
    exact Vector.getElem_set_self hj
  · rw [Vector.getElem_set_ne hi hj heq]
    exact h j hj (hdone.resolve_right fun h => heq h.symm)

theorem Written.eq_ofFn {value : ℕ → α} {done : ℕ → Prop} {out : Vector α n}
    (h : Written value done out) (hall : ∀ i < n, done i) :
    out = Vector.ofFn fun i => value i := by
  refine Vector.ext fun i hi => ?_
  rw [Vector.getElem_ofFn]
  exact h i hi (hall i hi)

end Buffer

end Foundation
