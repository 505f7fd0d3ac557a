import DrawGraph.Proofs.Editor.Operation

/-!
# Mismatches of kinds

A link is let through when the kind of the output's box at that time can feed the input, but what an
evaluation hands over is the value itself. The two differ for sums and products: these start with a
number in their box and give an integer as soon as both operands are integers. So an evaluation of a
reached editor fails by a mismatch exactly when it comes to a UI node with an input of a vector kind
that is linked to a source of integers.
-/

namespace DrawGraph

open Evaluation Wiring

namespace Editor

variable {w : Wiring} {e : Editor} {root pin o : Id} {n : UiNode}

/-- The output supplies integers: it is the index of an asset or of a primitive, or a sum or product
of two integers. -/
inductive Integral (e : Editor) : Id → Prop
  | asset {kind : AssetKind} {id output : Id} {path : Option String}
      (hn : .asset kind id output path ∈ e.nodes) : Integral e output
  | primitive {id output : Id} {shape : PrimitiveShape}
      (hn : .primitive id output shape ∈ e.nodes) : Integral e output
  | binary {op : BinaryOp} {id left right output a b : Id}
      (hn : .binary op id left right output ∈ e.nodes) (hleft : e.graph.neighbors left = [a])
      (hright : e.graph.neighbors right = [b]) (ha : Integral e a) (hb : Integral e b) :
      Integral e output

/-- The pin is linked to an output of integers, which cannot become what its box holds. -/
def Clashes (e : Editor) (pin : Id) : Prop :=
  ∃ o v, e.graph.neighbors pin = [o] ∧ e.Integral o ∧ e.values.get? pin = some v ∧
    ¬ ValueKind.int.canFeed v.kind

/-- An evaluation comes to a UI node with an input that clashes with what it is linked to. -/
def MeetsClash (e : Editor) : Prop :=
  ∃ root order, e.root = some root ∧ e.graph.reductionOrder e.settings root = .ok order ∧
    ∃ n ∈ e.nodes, n.id ∈ order ∧ ∃ pin ∈ n.inputs, e.Clashes pin

def Mismatches (r : Except EditorError EvalReport) : Prop :=
  ∃ mismatch : EvalError, mismatch.IsMismatch ∧ r = .error (.eval mismatch)

/-- The value can become what the pin's box holds, unless the pin clashes with its link. -/
def Fits (e : Editor) (pin : Id) (v : Value) : Prop :=
  ∃ box, e.values.get? pin = some box ∧ (v.kind.canFeed box.kind ↔ ¬ e.Clashes pin)

/-- Clashes are what evaluations and frames fail for, and what operands do not fit for. -/
structure TypedUpToClashes (e : Editor) : Prop where
  evaluate : Mismatches e.evaluate.1 ↔ e.MeetsClash
  frame : ∀ dt, e.UpdateServed dt → (Mismatches (e.frame dt).1 ↔ (e.update dt).MeetsClash)
  operands : ∀ root order pre n post m, e.root = some root →
    e.graph.reductionOrder e.settings root = .ok order → order = pre ++ n.id :: post →
      n ∈ e.nodes → e.replayed pre = (.ok (), m) → ∃ first last m₀ vs, pre = first ++ last ∧
        e.replayed first = (.ok (), m₀) ∧
          Fills e.graph e.clock.elapsed m₀ n.inputs last vs m ∧ List.Forall₂ e.Fits n.inputs vs

/-! ## Sources of integers -/

theorem Sound.integral_of_wiring (hs : e.Sound w) (h : w.Integral e.graph o) : e.Integral o := by
  induction h with
  | exactly ho =>
      obtain ⟨n, hn, rfl, hout⟩ := hs.output_node ho
      have hoffer := (hs.casts.plays n hn).output hout
      rw [ho, Option.some.injEq, Role.output.injEq] at hoffer
      cases n with
      | asset kind id output path =>
          obtain rfl := List.mem_singleton.1 hout
          exact .asset hn
      | primitive id output shape =>
          obtain rfl := List.mem_singleton.1 hout
          exact .primitive hn
      | constant kind id output loaded => cases kind <;> cases hoffer.2
      | _ => cases hoffer.2
  | @number o p left right a b outputs ho hp hleft hright _ _ iha ihb =>
      obtain ⟨n, hn, rfl, hout⟩ := hs.output_node ho
      have hplays := hs.casts.plays n hn
      have hoffer := hplays.output hout
      have hid := hplays.identity
      rw [ho, Option.some.injEq, Role.output.injEq] at hoffer
      rw [hp, Option.some.injEq, Role.identity.injEq] at hid
      cases n with
      | binary op id left' right' output =>
          obtain ⟨rfl, rfl⟩ : left = left' ∧ right = right' := by
            simpa [UiNode.inputs] using hid.1
          obtain rfl := List.mem_singleton.1 hout
          exact .binary hn hleft hright iha ihb
      | _ => cases hoffer.2

theorem Sound.integral_iff (hs : e.Sound w) : w.Integral e.graph o ↔ e.Integral o := by
  refine ⟨hs.integral_of_wiring, fun h => ?_⟩
  induction h with
  | asset hn => exact .exactly ((hs.casts.plays _ hn).output (List.mem_singleton.2 rfl))
  | primitive hn => exact .exactly ((hs.casts.plays _ hn).output (List.mem_singleton.2 rfl))
  | binary hn hleft hright _ _ iha ihb =>
      have hplays := hs.casts.plays _ hn
      exact .number (hplays.output (List.mem_singleton.2 rfl)) hplays.identity hleft hright iha ihb

/-! ## Clashes -/

theorem Sound.clashes_iff (hs : e.Sound w) (hn : n ∈ e.nodes) (hpin : pin ∈ n.inputs) :
    w.Clashes e.graph pin ↔ e.Clashes pin := by
  obtain ⟨kind, _, hrole⟩ := (hs.casts.plays n hn).input hpin
  obtain ⟨v, hv, rfl⟩ := hs.wired.input_box hrole
  constructor
  · rintro ⟨owner, kind, o, hrole', ho, hint, hno⟩
    rw [hrole] at hrole'
    cases hrole'
    exact ⟨o, v, ho, hs.integral_iff.1 hint, hv, hno⟩
  · rintro ⟨o, v', ho, hint, hv', hno⟩
    rw [hv] at hv'
    cases hv'
    exact ⟨n.id, v.kind, o, hrole, ho, hs.integral_iff.2 hint, hno⟩

theorem Sound.misfed_iff (hs : e.Sound w) (hn : n ∈ e.nodes) :
    w.Misfed e.graph n.id ↔ ∃ pin ∈ n.inputs, e.Clashes pin := by
  constructor
  · rintro ⟨inputs, outputs, hid, pin, hpin, hclash⟩
    rw [(hs.casts.plays n hn).identity] at hid
    cases hid
    exact ⟨pin, hpin, (hs.clashes_iff hn hpin).1 hclash⟩
  · rintro ⟨pin, hpin, hclash⟩
    exact ⟨_, _, (hs.casts.plays n hn).identity, pin, hpin, (hs.clashes_iff hn hpin).2 hclash⟩

/-- What an input is handed fits, unless the input clashes with its link. -/
theorem Sound.fits (hs : e.Sound w) (hn : n ∈ e.nodes) (hpin : pin ∈ n.inputs) {v : Value}
    (hv : w.Yields e.graph pin v) : e.Fits pin v := by
  obtain ⟨kind, _, hrole⟩ := (hs.casts.plays n hn).input hpin
  obtain ⟨box, hbox, rfl⟩ := hs.wired.input_box hrole
  refine ⟨box, hbox, ?_⟩
  rw [hv.canFeed_iff hs.wired hrole, hs.clashes_iff hn hpin]

/-! ## Evaluations -/

theorem Sound.meetsClash_iff (hs : e.Sound w) {order : List Id} (hroot : e.root = some root)
    (hr : e.graph.reductionOrder e.settings root = .ok order) :
    e.MeetsClash ↔ ∃ id ∈ order, w.Misfed e.graph id := by
  constructor
  · rintro ⟨root', order', hroot', hr', n, hn, hmem, hclash⟩
    rw [hroot] at hroot'
    cases hroot'
    rw [hr] at hr'
    cases hr'
    exact ⟨n.id, hmem, (hs.misfed_iff hn).2 hclash⟩
  · rintro ⟨id, hmem, hmisfed⟩
    have ⟨inputs, outputs, hid, _⟩ := hmisfed
    obtain ⟨n, hn, rfl, _⟩ := hs.identity_node hid
    exact ⟨root, order, hroot, hr, n, hn, hmem, (hs.misfed_iff hn).1 hmisfed⟩

theorem not_isMismatch_of_reductionOrder {g : Graph} {settings : EvalSettings} {err : EvalError}
    (h : g.reductionOrder settings root = .error err) : ¬ err.IsMismatch := by
  rintro ⟨node, expected, found, rfl⟩
  unfold Graph.reductionOrder at h
  split at h
  · cases h
  · split at h
    · cases h
    · split at h <;> cases h

theorem Sound.mismatches_iff_misfed (hs : e.Sound w) {order : List Id} (hroot : e.root = some root)
    (hr : e.graph.reductionOrder e.settings root = .ok order) :
    Mismatches e.evaluate.1 ↔ ∃ id ∈ order, w.Misfed e.graph id := by
  have hwalk := hs.walk_ensures hr
  rw [evaluate_of_order hroot hr]
  cases hrun : e.replayed order with
  | mk r m =>
      cases r with
      | error err =>
          obtain ⟨herr, hmisfed, _⟩ := hwalk.of_error hrun
          exact iff_of_true ⟨err, herr, rfl⟩ hmisfed
      | ok u =>
          obtain ⟨hfed, _⟩ := hwalk.of_ok hrun
          refine iff_of_false ?_ ?_
          · rintro ⟨_, _, heq⟩
            cases heq
          · rintro ⟨id, hid, hmisfed⟩
            exact hfed id hid hmisfed

theorem Sound.mismatches_evaluate_iff (hs : e.Sound w) :
    Mismatches e.evaluate.1 ↔ e.MeetsClash := by
  cases hroot : e.root with
  | none =>
      refine iff_of_false ?_ ?_
      · rintro ⟨_, ⟨node, expected, found, rfl⟩, heq⟩
        simp [Editor.evaluate, hroot] at heq
      · rintro ⟨root, _, hsome, _⟩
        simp [hroot] at hsome
  | some root =>
      cases hr : e.graph.reductionOrder e.settings root with
      | error err =>
          refine iff_of_false ?_ ?_
          · rintro ⟨mismatch, hmismatch, heq⟩
            rw [evaluate_of_no_order hroot hr] at heq
            cases heq
            exact not_isMismatch_of_reductionOrder hr hmismatch
          · rintro ⟨root', order, hsome, hr', _⟩
            rw [hroot] at hsome
            cases hsome
            rw [hr] at hr'
            cases hr'
      | ok order => rw [hs.mismatches_iff_misfed hroot hr, hs.meetsClash_iff hroot hr]

/-- An evaluation of a reached editor fails by a mismatch exactly when it meets a clash, and so does
a frame; all other operands fit the inputs that they are for. -/
theorem Reached.typedUpToClashes (h : Reached e) : e.TypedUpToClashes := by
  obtain ⟨w, hs⟩ := h.sound
  refine ⟨hs.mismatches_evaluate_iff, ?_, ?_⟩
  · intro dt hserved
    obtain ⟨w', hs'⟩ := (Reached.step h (.update dt) hserved).sound
    exact hs'.mismatches_evaluate_iff
  · intro root order pre n post m hroot hr heq hn hrun
    obtain ⟨first, last, m₀, vs, rfl, hrun₀, _, hvs⟩ := hs.supplied hr heq hn hrun
    refine ⟨first, last, m₀, vs, rfl, hrun₀, hvs.fills, ?_⟩
    have hfits : ∀ {pins : List Id} {vs : List Value}, List.Forall₂ (w.Yields e.graph) pins vs →
        (∀ pin ∈ pins, pin ∈ n.inputs) → List.Forall₂ e.Fits pins vs := by
      intro pins vs hyields
      induction hyields with
      | nil => exact fun _ => .nil
      | cons hv _ ih =>
          intro hpins
          exact .cons (hs.fits hn (hpins _ List.mem_cons_self) hv)
            (ih fun pin hpin => hpins pin (List.mem_cons_of_mem _ hpin))
    exact hfits hvs.yields fun _ h => h

/-- A transform is moved by the sum of an image's index and itself. -/
def indexSum : Editor :=
  built [.addNode .texture, .addNode .add, .addNode .transform, .link 4 1, .link 6 1, .link 11 8,
    .setRoot (some 10)]

theorem reached_indexSum : Reached indexSum :=
  reached_built ⟨served_addNode (by decide +kernel), served_addNode (by decide +kernel),
    served_addNode (by decide +kernel), served_link (by decide +kernel),
    served_link (by decide +kernel), served_link (by decide +kernel), trivial, trivial⟩

theorem indexSum_meetsClash : Reached indexSum ∧
    indexSum.evaluate.1 = .error (.eval (.typeMismatch 10 .float3 .int)) ∧ indexSum.MeetsClash := by
  have hevaluate : indexSum.evaluate.1 = .error (.eval (.typeMismatch 10 .float3 .int)) := by
    decide +kernel
  have htyped := Reached.typedUpToClashes reached_indexSum
  exact ⟨reached_indexSum, hevaluate, htyped.evaluate.1 ⟨_, ⟨10, .float3, .int, rfl⟩, hevaluate⟩⟩

end Editor

end DrawGraph
