import DrawGraph.Proofs.Editor.Supply
import DrawGraph.Proofs.Evaluation.Machine
import DrawGraph.UiNode.Reduce
import Mathlib.Data.List.Forall2

/-!
# Reductions in their roles

A UI node whose operands are those that its inputs yield takes exactly these off the stack. It
fails only when an input clashes with its supply, as a mismatch of kinds; otherwise it leaves one
value that its output may supply, or, when it has no output, none.
-/

namespace DrawGraph

open Machine Wiring

variable {σ : Type} {w : Wiring} {g : Graph} {m m' : Machine σ} {site : Site} {rest vs : List Value}

/-- A reduction failed for want of a conversion. -/
structure Refused (w : Wiring) (g : Graph) (id : Id) (m : Machine σ) (err : EvalError)
    (m' : Machine σ) : Prop where
  mismatch : err.IsMismatch
  misfed : w.Misfed g id
  wired : Wired w g m'.values
  owner : m'.owner = m.owner

/-- A reduction left on the rest of the stack what the outputs may supply. -/
structure Left (w : Wiring) (g : Graph) (id : Id) (outputs : List Id) (rest : List Value)
    (m m' : Machine σ) : Prop where
  fed : ¬ w.Misfed g id
  wired : Wired w g m'.values
  owner : m'.owner = m.owner
  value : outputs ≠ [] → ∃ v, m'.stack = v :: rest ∧ ∀ o ∈ outputs, w.Supplies g o v
  nothing : outputs = [] → m'.stack = rest ∧ m'.ready.isSome

namespace Wiring

theorem not_clashes {pin owner : Id} {kind : ValueKind} (hpin : w pin = some (.input owner kind))
    (h : ValueKind.int.canFeed kind) : ¬ w.Clashes g pin := by
  rintro ⟨_, _, _, hpin', _, _, hno⟩
  rw [hpin] at hpin'
  cases hpin'
  exact hno h

end Wiring

namespace UiNode

variable {n : UiNode}

theorem Plays.misfed_iff (hn : n.Plays w) :
    w.Misfed g n.id ↔ ∃ pin ∈ n.inputs, w.Clashes g pin := by
  simp [Misfed, hn.identity]

theorem Plays.fed (hn : n.Plays w) (h : ∀ pin ∈ n.inputs, ¬ w.Clashes g pin) :
    ¬ w.Misfed g n.id := by
  rw [hn.misfed_iff]
  rintro ⟨pin, hpin, hclash⟩
  exact h pin hpin hclash

/-- A UI node without inputs for vectors or matrices takes whatever it is fed. -/
theorem Plays.not_misfed (hn : n.Plays w)
    (h : ∀ p ∈ n.sockets, ValueKind.int.canFeed p.2) : ¬ w.Misfed g n.id := by
  apply hn.fed
  intro pin hpin
  obtain ⟨kind, hmem, hrole⟩ := hn.input hpin
  exact not_clashes hrole (h _ hmem)

theorem Plays.refused (hn : n.Plays w) {pin : Id} (hpin : pin ∈ n.inputs)
    (hclash : w.Clashes g pin) {err : EvalError} (herr : err.IsMismatch)
    (hw : Wired w g m'.values) (ho : m'.owner = m.owner) : Refused w g n.id m err m' :=
  ⟨herr, hn.misfed_iff.2 ⟨pin, hpin, hclash⟩, hw, ho⟩

theorem left_emit {id out : Id} {v : Value} {m₀ : Machine σ} (hfed : ¬ w.Misfed g id)
    (hw : Wired w g m.values) (hs : m.stack = rest) (ho : m.owner = m₀.owner)
    (hv : w.Supplies g out v) :
    (emit out v).Ensures m (Refused w g id m₀) fun _ m' => Left w g id [out] rest m₀ m' := by
  refine Attempt.ensures_of_ok (emit_on m out v) ⟨hfed, ?_, ho, ?_, fun h => by cases h⟩
  · obtain ⟨_, _, hrole, hadmits, _⟩ := hv
    refine hw.put ?_
    rw [hrole]
    exact ⟨v, rfl, hadmits⟩
  · intro _
    exact ⟨v, congrArg (v :: ·) hs, by simpa using hv⟩

theorem left_push {id out : Id} {v : Value} (hfed : ¬ w.Misfed g id) (hw : Wired w g m.values)
    (hv : w.Supplies g out v) :
    (push v).Ensures m (Refused w g id m) fun _ m' => Left w g id [out] m.stack m m' :=
  Attempt.ensures_of_ok (push_on m v)
    ⟨hfed, hw, rfl, fun _ => ⟨v, rfl, by simpa using hv⟩, fun h => by cases h⟩

end UiNode

/-! ## Operands of vectors -/

theorem expectVec3_ensures {pin owner : Id} {v : Value} (hv : w.Yields g pin v)
    (hw : Wired w g m.values) (hpin : w pin = some (.input owner .float3)) :
    (expectVec3 site v).Ensures m (fun err m' => m' = m ∧ err.IsMismatch ∧ w.Clashes g pin)
      fun _ m' => m' = m ∧ ¬ w.Clashes g pin := by
  by_cases hfeed : v.kind.canFeed .float3
  · obtain ⟨u, hu, hexpect⟩ := expect_of_canFeed site m hfeed
    have hno := (hv.canFeed_iff hw hpin).1 hfeed
    refine Attempt.ensures_bind_of_ok hexpect ?_
    cases u <;> cases hu
    exact Attempt.ensures_pure ⟨rfl, hno⟩
  · have hclash : w.Clashes g pin := by
      by_contra hno
      exact hfeed ((hv.canFeed_iff hw hpin).2 hno)
    refine Attempt.ensures_of_error (t := m)
      (Attempt.on_bind_of_error (expect_of_not_canFeed hfeed)) ?_
    exact ⟨rfl, ⟨_, _, _, rfl⟩, hclash⟩

/-- A vector input of a UI node is fed, or the whole reduction fails. -/
theorem UiNode.Plays.expectVec3 {n : UiNode} (hn : n.Plays w) {pin : Id} {v : Value}
    {m₀ : Machine σ} (hpin : (pin, .float3) ∈ n.sockets) (hv : w.Yields g pin v) (hw : Wired w g m.values)
    (ho : m.owner = m₀.owner) :
    (expectVec3 site v).Ensures m (Refused w g n.id m₀)
      fun _ m' => m' = m ∧ ¬ w.Clashes g pin := by
  have hrole : w pin = some (.input n.id .float3) := Wiring.Seats.input hn _ hpin
  have hmem : pin ∈ n.inputs := n.map_fst_sockets ▸ List.mem_map.2 ⟨_, hpin, rfl⟩
  refine (expectVec3_ensures hv hw hrole).mono_error ?_
  rintro err m' ⟨rfl, herr, hclash⟩
  exact hn.refused hmem hclash herr hw ho

theorem Camera.reduce_ensures {c : Camera} (hn : (UiNode.camera c).Plays w)
    (hw : Wired w g m.values) (hvs : List.Forall₂ (w.Yields g) (UiNode.camera c).inputs vs)
    (hstack : m.stack = vs.reverse ++ rest) :
    (c.reduce site).Ensures m (Refused w g c.id m)
      fun _ m' => Left w g c.id [c.output] rest m m' := by
  simp only [UiNode.inputs, List.forall₂_cons_left_iff, List.forall₂_nil_left_iff] at hvs
  obtain ⟨eye, _, heye, ⟨target, _, htarget, rfl, rfl⟩, rfl⟩ := hvs
  let m₁ : Machine σ := { m with stack := rest }
  have hpop : (pop₂ site).on m = (.ok (eye, target), m₁) := pop₂_on hstack
  have howner : m₁.owner = m.owner := rfl
  refine Attempt.ensures_bind_of_ok hpop ?_
  refine (hn.expectVec3 (m := m₁) (by simp [UiNode.sockets]) heye hw howner).bind ?_
  rintro eye' _ ⟨rfl, hno₁⟩
  refine (hn.expectVec3 (m := m₁) (by simp [UiNode.sockets]) htarget hw howner).bind ?_
  rintro target' _ ⟨rfl, hno₂⟩
  have hfed : ¬ w.Misfed g c.id := hn.fed (by simp [UiNode.inputs, hno₁, hno₂])
  exact UiNode.left_emit (m := m₁) hfed hw rfl howner
    (supplies_of_exactly (hn.output (o := c.output) (by simp [UiNode.outputs])) rfl)

theorem Transform.reduce_ensures {t : Transform} (hn : (UiNode.transform t).Plays w)
    (hw : Wired w g m.values) (hvs : List.Forall₂ (w.Yields g) (UiNode.transform t).inputs vs)
    (hstack : m.stack = vs.reverse ++ rest) :
    (t.reduce site).Ensures m (Refused w g t.id m)
      fun _ m' => Left w g t.id [t.output] rest m m' := by
  simp only [UiNode.inputs, List.forall₂_cons_left_iff, List.forall₂_nil_left_iff] at hvs
  obtain ⟨move, _, hmove, ⟨turn, _, hturn, ⟨scale, _, hscale, rfl, rfl⟩, rfl⟩, rfl⟩ := hvs
  let m₁ : Machine σ := { m with stack := rest }
  have hpop : (pop₃ site).on m = (.ok (move, turn, scale), m₁) := pop₃_on hstack
  have howner : m₁.owner = m.owner := rfl
  refine Attempt.ensures_bind_of_ok hpop ?_
  refine (hn.expectVec3 (m := m₁) (by simp [UiNode.sockets]) hmove hw howner).bind ?_
  rintro move' _ ⟨rfl, hno₁⟩
  refine (hn.expectVec3 (m := m₁) (by simp [UiNode.sockets]) hturn hw howner).bind ?_
  rintro turn' _ ⟨rfl, hno₂⟩
  refine (hn.expectVec3 (m := m₁) (by simp [UiNode.sockets]) hscale hw howner).bind ?_
  rintro scale' _ ⟨rfl, hno₃⟩
  have hfed : ¬ w.Misfed g t.id := hn.fed (by simp [UiNode.inputs, hno₁, hno₂, hno₃])
  exact UiNode.left_emit (m := m₁) hfed hw rfl howner
    (supplies_of_exactly (hn.output (o := t.output) (by simp [UiNode.outputs])) rfl)

/-- The constants of a draw node are made unless one of its variables clashes. -/
theorem Draw.constants_ensures {owner : Id} {bs : List Binding} (hw : Wired w g m.values)
    (hbs : ∀ b ∈ bs, w b.pin = some (.input owner b.type.kind))
    (hvs : List.Forall₂ (w.Yields g) (bs.map (·.pin)) vs) :
    (Draw.constants site bs vs).Ensures m
      (fun err m' => m' = m ∧ err.IsMismatch ∧ ∃ b ∈ bs, w.Clashes g b.pin)
      fun _ m' => m' = m ∧ ∀ b ∈ bs, ¬ w.Clashes g b.pin := by
  induction bs generalizing vs with
  | nil => exact Attempt.ensures_pure ⟨rfl, by simp⟩
  | cons b bs ih =>
      rw [List.map_cons, List.forall₂_cons_left_iff] at hvs
      obtain ⟨v, vs, hv, hvs, rfl⟩ := hvs
      have hb := hbs b List.mem_cons_self
      rw [constants]
      by_cases hfeed : v.kind.canFeed b.type.kind
      · obtain ⟨u, _, hexpect⟩ := expect_of_canFeed site m hfeed
        have hno := (hv.canFeed_iff hw hb).1 hfeed
        refine Attempt.ensures_bind_of_ok hexpect ?_
        refine ((ih (fun c hc => hbs c (List.mem_cons_of_mem _ hc)) hvs).mono_error ?_).bind ?_
        · rintro err m' ⟨rfl, herr, c, hc, hclash⟩
          exact ⟨rfl, herr, c, List.mem_cons_of_mem _ hc, hclash⟩
        · rintro cs m' ⟨rfl, hrest⟩
          refine Attempt.ensures_pure ⟨rfl, ?_⟩
          simpa [hno] using hrest
      · have hclash : w.Clashes g b.pin := by
          by_contra hno
          exact hfeed ((hv.canFeed_iff hw hb).2 hno)
        refine Attempt.ensures_of_error (t := m)
          (Attempt.on_bind_of_error (expect_of_not_canFeed hfeed)) ?_
        exact ⟨rfl, ⟨_, _, _, rfl⟩, b, List.mem_cons_self, hclash⟩

theorem Draw.reduce_ensures {d : Draw} (hn : (UiNode.draw d).Plays w)
    (hw : Wired w g m.values) (hvs : List.Forall₂ (w.Yields g) (UiNode.draw d).inputs vs)
    (hstack : m.stack = vs.reverse ++ rest) :
    (d.reduce site).Ensures m (Refused w g d.id m)
      fun _ m' => Left w g d.id [d.output] rest m m' := by
  have hlen : vs.length = 2 + d.bindings.length := by
    rw [← hvs.length_eq, UiNode.inputs, List.length_cons, List.length_cons, List.length_map]
    omega
  simp only [UiNode.inputs, List.forall₂_cons_left_iff] at hvs
  obtain ⟨shader, _, hshader, ⟨model, vs, hmodel, hvs, rfl⟩, rfl⟩ := hvs
  let m₁ : Machine σ := { m with stack := rest }
  have hpop : (pop site (2 + d.bindings.length)).on m = (.ok (shader :: model :: vs), m₁) :=
    pop_on hlen hstack
  have howner : m₁.owner = m.owner := rfl
  have hbs : ∀ b ∈ d.bindings, w b.pin = some (.input d.id b.type.kind) := by
    intro b hb
    have hmem : (b.pin, b.type.kind) ∈ (UiNode.draw d).sockets :=
      List.mem_cons_of_mem _ (List.mem_cons_of_mem _ (List.mem_map.2 ⟨b, hb, rfl⟩))
    exact Wiring.Seats.input hn _ hmem
  refine Attempt.ensures_bind_of_ok hpop ?_
  refine ((constants_ensures (m := m₁) hw hbs hvs).mono_error ?_).bind ?_
  · rintro err _ ⟨rfl, herr, b, hb, hclash⟩
    have hmem : b.pin ∈ (UiNode.draw d).inputs :=
      List.mem_cons_of_mem _ (List.mem_cons_of_mem _ (List.mem_map.2 ⟨b, hb, rfl⟩))
    exact hn.refused hmem hclash herr hw howner
  rintro cs _ ⟨rfl, hno⟩
  have hfed : ¬ w.Misfed g d.id := by
    apply hn.fed
    intro pin hpin
    rcases List.mem_cons.1 hpin with rfl | hpin
    · exact not_clashes (Wiring.Seats.input hn (d.shader, .int) (by simp [UiNode.sockets])) rfl
    · rcases List.mem_cons.1 hpin with rfl | hpin
      · exact not_clashes (Wiring.Seats.input hn (d.model, .int) (by simp [UiNode.sockets])) rfl
      · obtain ⟨b, hb, rfl⟩ := List.mem_map.1 hpin
        exact hno b hb
  have hsupplies (x : Float32) : w.Supplies g d.output (.float x) :=
    supplies_of_exactly (hn.output (o := d.output) (by simp [UiNode.outputs])) rfl
  dsimp only
  split
  · obtain ⟨m₂, hsubmit, hstack₂, hvalues, howner₂⟩ := submit_on site m₁ _
    exact Attempt.ensures_bind_of_ok hsubmit
      (UiNode.left_emit hfed (hvalues ▸ hw) hstack₂ howner₂ (hsupplies 1))
  · exact UiNode.left_emit (m := m₁) hfed hw rfl howner (hsupplies 0)

namespace UiNode

/-- What comes back of a UI node that was reduced plays the same roles. -/
structure Returns (w : Wiring) (n n' : UiNode) : Prop where
  id : n'.id = n.id
  observes : n'.observes = n.observes
  plays : n'.Plays w

theorem Returns.refl {n : UiNode} (hn : n.Plays w) : Returns w n n := ⟨rfl, rfl, hn⟩

/-- A part of a reduction that gives the UI node back as it was. -/
theorem ensures_return {n : UiNode} {x : Reduction σ Unit} {m₀ : Machine σ} (hn : n.Plays w)
    (hx : x.Ensures m (Refused w g n.id m₀) fun _ m' => Left w g n.id n.outputs rest m₀ m') :
    (x >>= fun _ => (pure n : Reduction σ UiNode)).Ensures m (Refused w g n.id m₀)
      fun n' m' => n.Returns w n' ∧ Left w g n.id n.outputs rest m₀ m' :=
  hx.bind fun _ _ hleft => Attempt.ensures_pure ⟨.refl hn, hleft⟩

/-- A UI node that only gives the index in the box of its output. -/
theorem ensures_index {n : UiNode} {out : Id} (hn : n.Plays w) (hout : n.outputs = [out])
    (hrole : w out = some (.output n.id (.exactly .int))) (hfed : ¬ w.Misfed g n.id)
    (hw : Wired w g m.values) :
    (do push ((← box? out).getD (.int noIndex)); return n : Reduction σ UiNode).Ensures m
      (Refused w g n.id m) fun n' m' => n.Returns w n' ∧ Left w g n.id n.outputs m.stack m m' := by
  obtain ⟨v, hbox, hv⟩ := hw.output_box hrole
  refine Attempt.ensures_bind_of_ok (box?_on m out) (ensures_return hn ?_)
  rw [hbox, Option.getD_some, hout]
  exact left_push hfed hw (supplies_of_exactly hrole hv)

/-- An operation on what the inputs of its node yield has a value that the output may supply. -/
theorem supplies_apply {op : BinaryOp} {id left right out : Id} {a b : Value}
    (hn : (binary op id left right out).Plays w) (hw : Wired w g m.values)
    (ha : w.Yields g left a) (hb : w.Yields g right b) :
    ∃ v, Value.apply op a b = .ok v ∧ w.Supplies g out v := by
  have hleft : w left = some (.input id .float) :=
    Wiring.Seats.input hn (left, .float) (by simp [sockets])
  have hright : w right = some (.input id .float) :=
    Wiring.Seats.input hn (right, .float) (by simp [sockets])
  have hout : w out = some (.output id .number) := hn.output (o := out) (by simp [outputs])
  obtain ⟨v, hv, hnumber, hint⟩ :=
    Value.apply_number op (ha.number hw hleft) (hb.number hw hright)
  refine ⟨v, hv, id, _, hout, hnumber, ?_⟩
  rw [hint, integral_number_iff hout hn.identity, ha.int_iff hw hleft (by decide),
    hb.int_iff hw hright (by decide)]

theorem reduce_ensures {n : UiNode} (hn : n.Plays w) (hw : Wired w g m.values)
    (hvs : List.Forall₂ (w.Yields g) n.inputs vs) (hstack : m.stack = vs.reverse ++ rest) :
    (n.reduce site).Ensures m (Refused w g n.id m)
      fun n' m' => n.Returns w n' ∧ Left w g n.id n.outputs rest m m' := by
  let m₁ : Machine σ := { m with stack := rest }
  cases n with
  | binary op id left right out =>
      simp only [inputs, List.forall₂_cons_left_iff, List.forall₂_nil_left_iff] at hvs
      obtain ⟨a, _, ha, ⟨b, _, hb, rfl, rfl⟩, rfl⟩ := hvs
      have hpop : (pop₂ site).on m = (.ok (a, b), m₁) := pop₂_on hstack
      have hfed : ¬ w.Misfed g id := hn.not_misfed (by simp [sockets, ValueKind.canFeed])
      obtain ⟨v, hv, hsupplies⟩ := supplies_apply hn hw ha hb
      refine Attempt.ensures_bind_of_ok hpop ?_
      dsimp only
      rw [hv]
      refine Attempt.ensures_bind_of_ok (a := v) (t := m₁) rfl ?_
      exact ensures_return hn (left_emit (m := m₁) hfed hw rfl rfl hsupplies)
  | sine id input out =>
      simp only [inputs, List.forall₂_cons_left_iff, List.forall₂_nil_left_iff] at hvs
      obtain ⟨a, _, ha, rfl, rfl⟩ := hvs
      have hpop : (pop₁ site).on m = (.ok a, m₁) := pop₁_on hstack
      have hinput : w input = some (.input id .float) :=
        Wiring.Seats.input hn (input, .float) (by simp [sockets])
      have hout : w out = some (.output id (.exactly .float)) :=
        hn.output (o := out) (by simp [outputs])
      have hfed : ¬ w.Misfed g id := hn.not_misfed (by simp [sockets, ValueKind.canFeed])
      have hsupplies : w.Supplies g out a.absSin :=
        supplies_of_exactly hout (Value.kind_absSin_of_number (ha.number hw hinput))
      refine Attempt.ensures_bind_of_ok hpop ?_
      exact ensures_return hn (left_emit (m := m₁) hfed hw rfl rfl hsupplies)
  | time id out =>
      have hfed : ¬ w.Misfed g id := hn.not_misfed (by simp [sockets])
      obtain rfl := List.forall₂_nil_left_iff.1 hvs
      refine ensures_return hn (left_emit hfed hw hstack rfl ?_)
      exact supplies_of_exactly (hn.output (o := out) (by simp [outputs])) rfl
  | constant kind id out loaded =>
      obtain rfl := List.forall₂_nil_left_iff.1 hvs
      have hfed : ¬ w.Misfed g id := hn.not_misfed (by simp [sockets])
      have hout : w out = some (.output id (.exactly kind.valueKind)) :=
        hn.output (o := out) (by simp [outputs])
      obtain ⟨v, hbox, hv⟩ := hw.output_box hout
      have hvalue : constantValue m.values out loaded = v := by
        rw [constantValue, hbox, Option.getD_some]
      refine Attempt.ensures_get_bind (ensures_return hn ?_)
      rw [hvalue, ← show m.stack = rest from hstack]
      exact left_push hfed hw (supplies_of_exactly hout hv)
  | asset kind id out path =>
      obtain rfl := List.forall₂_nil_left_iff.1 hvs
      have hfed : ¬ w.Misfed g id := hn.not_misfed (by simp [sockets])
      rw [← show m.stack = rest from hstack]
      exact ensures_index hn rfl (hn.output (o := out) (by simp [outputs])) hfed hw
  | primitive id out shape =>
      obtain rfl := List.forall₂_nil_left_iff.1 hvs
      have hfed : ¬ w.Misfed g id := hn.not_misfed (by simp [sockets])
      rw [← show m.stack = rest from hstack]
      exact ensures_index hn rfl (hn.output (o := out) (by simp [outputs])) hfed hw
  | camera c => exact ensures_return hn (Camera.reduce_ensures hn hw hvs hstack)
  | transform t => exact ensures_return hn (Transform.reduce_ensures hn hw hvs hstack)
  | draw d => exact ensures_return hn (Draw.reduce_ensures hn hw hvs hstack)
  | renderTarget id input ready =>
      simp only [inputs, List.forall₂_cons_left_iff, List.forall₂_nil_left_iff] at hvs
      obtain ⟨a, _, ha, rfl, rfl⟩ := hvs
      have hpop : (pop₁ site).on m = (.ok a, m₁) := pop₁_on hstack
      have hfed : ¬ w.Misfed g id := hn.not_misfed (by simp [sockets, ValueKind.canFeed])
      refine Attempt.ensures_bind_of_ok hpop ?_
      refine Attempt.ensures_bind_of_ok (setReady_on m₁ a.isNonzero) ?_
      refine Attempt.ensures_pure ⟨⟨rfl, rfl, hn⟩, ?_⟩
      exact ⟨hfed, hw, rfl, fun h => absurd rfl h, fun _ => ⟨rfl, rfl⟩⟩

end UiNode

end DrawGraph
