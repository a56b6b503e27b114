import CamelidEnterprise.Foundation.Loops

/-!
# Stacks of causal layers

A layer of a causal stack turns a sequence into a sequence of the same length:
each element is projected by itself, to what it asks and to a row it leaves, and
its output is combined from the rows up to its own. The stack can be run layer by
layer over the whole sequence (`wholeStack`), or element by element with the rows
of the elements before kept for each layer (`nextStack`).

* `Filled` — the rows that a sequence leaves in every layer, and its output;
* `Filled.snoc` — one more element, run through the kept rows, extends both;
* `Filled.whole_eq` — what is filled element by element is the layer by layer run;
* `Filled.next_of_whole` — where the layer by layer run returns, so does the other.

Both runs may fail, and not with the same error: layer by layer, an element fails in a
layer before those after it are reached.
-/

namespace Foundation

/-- One layer: `project` is given the place of the element in the sequence. -/
structure CausalLayer (ε H Q R : Type) where
  project : Nat → H → Outcome ε (Q × R)
  combine : H → Q → List R → Outcome ε H

namespace CausalLayer

variable {ε H Q R : Type}

-- ---------------------------------------------------------------------------
-- Layer by layer
-- ---------------------------------------------------------------------------

/-- The projections of a sequence. -/
def projectAll (layer : CausalLayer ε H Q R) (hiddens : List H) : Outcome ε (List (Q × R)) :=
  hiddens.zipIdx.mapM fun element => layer.project element.2 element.1

/-- A layer on a whole sequence: element `p` sees the rows `0..=p`. -/
def whole (layer : CausalLayer ε H Q R) (hiddens : List H) : Outcome ε (List H) := do
  let projected ← layer.projectAll hiddens
  (hiddens.zip projected).zipIdx.mapM fun element =>
    layer.combine element.1.1 element.1.2.1 ((projected.map Prod.snd).take (element.2 + 1))

def wholeStack : List (CausalLayer ε H Q R) → List H → Outcome ε (List H)
  | [], hiddens => .ok hiddens
  | layer :: layers, hiddens => do
    let hiddens ← layer.whole hiddens
    wholeStack layers hiddens

-- ---------------------------------------------------------------------------
-- Element by element
-- ---------------------------------------------------------------------------

/-- A layer on the next element, after those that left these rows. -/
def next (layer : CausalLayer ε H Q R) (history : List R) (hidden : H) : Outcome ε (H × R) := do
  let projected ← layer.project history.length hidden
  let output ← layer.combine hidden projected.1 (history ++ [projected.2])
  .ok (output, projected.2)

/-- A stack on the next element, with the rows kept for each layer. -/
def nextStack : List (CausalLayer ε H Q R) → List (List R) → H → Outcome ε (H × List R)
  | [], _, hidden => .ok (hidden, [])
  | layer :: layers, histories, hidden => do
    let first ← layer.next (histories.headD []) hidden
    let rest ← nextStack layers histories.tail first.1
    .ok (rest.1, first.2 :: rest.2)

/-- The rows kept for each layer after one more element. -/
def extend (histories : List (List R)) (rows : List R) : List (List R) :=
  List.zipWith (fun history row => history ++ [row]) histories rows

-- ---------------------------------------------------------------------------
-- The two runs agree
-- ---------------------------------------------------------------------------

theorem projectAll_snoc (layer : CausalLayer ε H Q R) (hiddens : List H) (hidden : H) :
    layer.projectAll (hiddens ++ [hidden]) = (do
      let projected ← layer.projectAll hiddens
      let last ← layer.project hiddens.length hidden
      .ok (projected ++ [last])) := by
  unfold projectAll
  rw [List.zipIdx_append, Outcome.mapM_append]
  congr 1
  funext projected
  show (do
      let ys ← [(hidden, 0 + hiddens.length)].mapM fun element : H × Nat =>
        layer.project element.2 element.1
      .ok (projected ++ ys)) = _
  rw [Outcome.mapM_cons, Nat.zero_add]
  cases layer.project hiddens.length hidden with
  | ok last => rfl
  | err e => rfl
  | fault k => rfl

/-- The rows of one more element are out of sight of those before it. -/
theorem combine_before {layer : CausalLayer ε H Q R} {hiddens : List H}
    {projected : List (Q × R)} (hlen : projected.length = hiddens.length) (last : Q × R) :
    ((hiddens.zip projected).zipIdx.mapM fun element =>
        layer.combine element.1.1 element.1.2.1
          (((projected ++ [last]).map Prod.snd).take (element.2 + 1))) =
      (hiddens.zip projected).zipIdx.mapM fun element =>
        layer.combine element.1.1 element.1.2.1
          ((projected.map Prod.snd).take (element.2 + 1)) := by
  apply Outcome.mapM_congr
  intro element helement
  have hlt := List.snd_lt_of_mem_zipIdx helement
  rw [List.length_zip, hlen, Nat.min_self, ← hlen] at hlt
  rw [List.map_append, List.take_append_of_le_length (by simp; omega)]

/-- The last element sees the rows of all. -/
theorem take_all {projected : List (Q × R)} {hiddens : List H}
    (hlen : projected.length = hiddens.length) (last : Q × R) :
    ((projected ++ [last]).map Prod.snd).take (0 + (hiddens.zip projected).length + 1) =
      projected.map Prod.snd ++ [last.2] := by
  rw [List.length_zip, hlen, Nat.min_self, ← hlen, List.take_of_length_le (by simp),
    List.map_append]
  rfl

/-- One more element does not change what a layer makes of those before it. -/
theorem whole_snoc {layer : CausalLayer ε H Q R} {hiddens outputs : List H}
    {projected : List (Q × R)} {hidden output : H} {row : R}
    (hprojected : layer.projectAll hiddens = .ok projected)
    (hwhole : layer.whole hiddens = .ok outputs)
    (hnext : layer.next (projected.map Prod.snd) hidden = .ok (output, row)) :
    ∃ query, layer.projectAll (hiddens ++ [hidden]) = .ok (projected ++ [(query, row)]) ∧
      layer.whole (hiddens ++ [hidden]) = .ok (outputs ++ [output]) := by
  have hlen : projected.length = hiddens.length := by
    rw [Outcome.length_of_mapM hprojected, List.length_zipIdx]
  obtain ⟨⟨query, row'⟩, hproject, hnext⟩ := Outcome.bind_eq_ok.mp hnext
  obtain ⟨output', hcombine, hnext⟩ := Outcome.bind_eq_ok.mp hnext
  obtain ⟨rfl, rfl⟩ := Prod.mk.inj (Outcome.ok.inj hnext)
  have hproject : layer.project hiddens.length hidden = .ok (query, row') := by
    rw [← hlen, ← hproject, List.length_map]
  have hall : layer.projectAll (hiddens ++ [hidden]) = .ok (projected ++ [(query, row')]) := by
    rw [projectAll_snoc, hprojected, Outcome.ok_bind, hproject, Outcome.ok_bind]
  refine ⟨query, hall, ?_⟩
  have hbefore : (hiddens.zip projected).zipIdx.mapM (fun element =>
      layer.combine element.1.1 element.1.2.1
        (((projected ++ [(query, row')]).map Prod.snd).take (element.2 + 1))) = .ok outputs := by
    rw [combine_before hlen, ← hwhole]
    unfold whole
    rw [hprojected, Outcome.ok_bind]
  unfold whole
  rw [hall, Outcome.ok_bind, List.zip_append hlen.symm, List.zipIdx_append, Outcome.mapM_append,
    hbefore, Outcome.ok_bind]
  show (do
      let ys ← [((hidden, query, row'), 0 + (hiddens.zip projected).length)].mapM
        fun element : (H × Q × R) × Nat => layer.combine element.1.1 element.1.2.1
          (((projected ++ [(query, row')]).map Prod.snd).take (element.2 + 1))
      .ok (outputs ++ ys)) = _
  rw [Outcome.mapM_cons, take_all hlen, hcombine]
  rfl

/-- A layer that returns on a sequence returns on what comes before its last element, and
on that element by itself. -/
theorem whole_snoc_eq_ok {layer : CausalLayer ε H Q R} {hiddens longer : List H} {hidden : H}
    (h : layer.whole (hiddens ++ [hidden]) = .ok longer) :
    ∃ projected outputs next, layer.projectAll hiddens = .ok projected ∧
      layer.whole hiddens = .ok outputs ∧
      layer.next (projected.map Prod.snd) hidden = .ok next ∧ longer = outputs ++ [next.1] := by
  unfold whole at h
  obtain ⟨all, hall, h⟩ := Outcome.bind_eq_ok.mp h
  rw [projectAll_snoc] at hall
  obtain ⟨projected, hprojected, hall⟩ := Outcome.bind_eq_ok.mp hall
  obtain ⟨last, hlast, hall⟩ := Outcome.bind_eq_ok.mp hall
  obtain rfl := Outcome.ok.inj hall
  have hlen : projected.length = hiddens.length := by
    rw [Outcome.length_of_mapM hprojected, List.length_zipIdx]
  rw [List.zip_append hlen.symm, List.zipIdx_append, Outcome.mapM_append,
    combine_before hlen] at h
  obtain ⟨outputs, houtputs, h⟩ := Outcome.bind_eq_ok.mp h
  obtain ⟨ends, hends, h⟩ := Outcome.bind_eq_ok.mp h
  replace hends : [((hidden, last), 0 + (hiddens.zip projected).length)].mapM
      (fun element : (H × Q × R) × Nat => layer.combine element.1.1 element.1.2.1
        (((projected ++ [last]).map Prod.snd).take (element.2 + 1))) = .ok ends := hends
  rw [Outcome.mapM_cons, take_all hlen] at hends
  obtain ⟨output, hcombine, hends⟩ := Outcome.bind_eq_ok.mp hends
  obtain rfl := Outcome.ok.inj hends
  refine ⟨projected, outputs, (output, last.2), hprojected, ?_, ?_, (Outcome.ok.inj h).symm⟩
  · unfold whole
    rw [hprojected, Outcome.ok_bind, houtputs]
  · unfold next
    rw [List.length_map, hlen, hlast, Outcome.ok_bind, hcombine]
    rfl

/-- An element leaves one row in every layer. -/
theorem length_of_nextStack {layers : List (CausalLayer ε H Q R)} {histories : List (List R)}
    {hidden : H} {out : H × List R} (h : nextStack layers histories hidden = .ok out) :
    out.2.length = layers.length := by
  induction layers generalizing histories hidden out with
  | nil =>
    obtain rfl := Outcome.ok.inj h
    rfl
  | cons layer layers ih =>
    obtain ⟨first, -, h⟩ := Outcome.bind_eq_ok.mp h
    obtain ⟨rest, hrest, h⟩ := Outcome.bind_eq_ok.mp h
    obtain rfl := Outcome.ok.inj h
    rw [List.length_cons, List.length_cons, ih hrest]

/-- The rows a sequence leaves in every layer of a stack, and what the stack makes
of the sequence. -/
inductive Filled : List (CausalLayer ε H Q R) → List H → List (List R) → List H → Prop
  | nil (hiddens : List H) : Filled [] hiddens [] hiddens
  | cons {layer layers hiddens projected middle histories outputs}
      (hprojected : CausalLayer.projectAll layer hiddens = .ok projected)
      (hwhole : CausalLayer.whole layer hiddens = .ok middle)
      (hrest : Filled layers middle histories outputs) :
      Filled (layer :: layers) hiddens (projected.map Prod.snd :: histories) outputs

theorem filled_empty (layers : List (CausalLayer ε H Q R)) :
    Filled layers [] (layers.map fun _ => []) [] := by
  induction layers with
  | nil => exact .nil []
  | cons layer layers ih =>
    have hempty : Filled (layer :: layers) [] (([] : List (Q × R)).map Prod.snd ::
        layers.map fun _ => []) [] := .cons rfl rfl ih
    exact hempty

/-- What is filled in is the layer by layer run. -/
theorem Filled.whole_eq {layers : List (CausalLayer ε H Q R)} {hiddens outputs : List H}
    {histories : List (List R)} (h : Filled layers hiddens histories outputs) :
    wholeStack layers hiddens = .ok outputs := by
  induction h with
  | nil => rfl
  | cons _ hwhole _ ih => rw [wholeStack, hwhole, Outcome.ok_bind, ih]

theorem Filled.length_eq {layers : List (CausalLayer ε H Q R)} {hiddens outputs : List H}
    {histories : List (List R)} (h : Filled layers hiddens histories outputs) :
    outputs.length = hiddens.length := by
  induction h with
  | nil => rfl
  | @cons layer _ hiddens projected middle _ _ hprojected hwhole _ ih =>
    rw [ih]
    unfold whole at hwhole
    rw [hprojected, Outcome.ok_bind] at hwhole
    have hlen := Outcome.length_of_mapM hwhole
    have hlen' := Outcome.length_of_mapM hprojected
    rw [List.length_zipIdx] at hlen'
    rw [hlen, List.length_zipIdx, List.length_zip, hlen', Nat.min_self]

/-- One more element, run through the kept rows, extends the rows of every layer
and the output. -/
theorem Filled.snoc {layers : List (CausalLayer ε H Q R)} {hiddens outputs : List H}
    {histories : List (List R)} (h : Filled layers hiddens histories outputs)
    {hidden output : H} {rows : List R}
    (hnext : nextStack layers histories hidden = .ok (output, rows)) :
    Filled layers (hiddens ++ [hidden]) (extend histories rows) (outputs ++ [output]) := by
  induction h generalizing hidden rows with
  | nil hiddens =>
    obtain ⟨rfl, rfl⟩ := Prod.mk.inj (Outcome.ok.inj hnext)
    exact .nil _
  | cons hprojected hwhole _ ih =>
    obtain ⟨⟨middle, row⟩, hfirst, hnext⟩ := Outcome.bind_eq_ok.mp hnext
    obtain ⟨⟨output', rows'⟩, hrest, hnext⟩ := Outcome.bind_eq_ok.mp hnext
    obtain ⟨rfl, rfl⟩ := Prod.mk.inj (Outcome.ok.inj hnext)
    obtain ⟨query, hall, hwhole'⟩ := whole_snoc hprojected hwhole hfirst
    have hfilled := Filled.cons hall hwhole' (ih hrest)
    rw [List.map_append] at hfilled
    exact hfilled

/-- A stack that returns on a sequence returns on what comes before its last element. -/
theorem wholeStack_of_snoc {layers : List (CausalLayer ε H Q R)} {hiddens longer : List H}
    {hidden : H} (h : wholeStack layers (hiddens ++ [hidden]) = .ok longer) :
    ∃ outputs, wholeStack layers hiddens = .ok outputs := by
  induction layers generalizing hiddens hidden longer with
  | nil => exact ⟨hiddens, rfl⟩
  | cons layer layers ih =>
    obtain ⟨middle, hmiddle, h⟩ := Outcome.bind_eq_ok.mp h
    obtain ⟨-, outputs, next, -, hwhole, -, rfl⟩ := whole_snoc_eq_ok hmiddle
    rw [wholeStack, hwhole, Outcome.ok_bind]
    exact ih h

/-- Where the layer by layer run returns on one more element, so does that element, run
through the kept rows. -/
theorem Filled.next_of_whole {layers : List (CausalLayer ε H Q R)} {hiddens outputs : List H}
    {histories : List (List R)} (h : Filled layers hiddens histories outputs) {hidden : H}
    {longer : List H} (hlonger : wholeStack layers (hiddens ++ [hidden]) = .ok longer) :
    ∃ out, nextStack layers histories hidden = .ok out := by
  induction h generalizing hidden longer with
  | nil hiddens => exact ⟨_, rfl⟩
  | cons hprojected hwhole _ ih =>
    obtain ⟨middle, hmiddle, hlonger⟩ := Outcome.bind_eq_ok.mp hlonger
    obtain ⟨projected, outputs, next, hprojected', hwhole', hnext, rfl⟩ := whole_snoc_eq_ok hmiddle
    obtain rfl := Outcome.ok.inj (hprojected.symm.trans hprojected')
    obtain rfl := Outcome.ok.inj (hwhole.symm.trans hwhole')
    obtain ⟨rest, hrest⟩ := ih hlonger
    refine ⟨(rest.1, next.2 :: rest.2), ?_⟩
    rw [nextStack, List.headD_cons, List.tail_cons, hnext, Outcome.ok_bind, hrest]
    rfl

end CausalLayer

end Foundation
