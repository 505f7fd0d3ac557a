import DrawGraph.Proofs.Editor.Untouched
import Mathlib.Algebra.GroupWithZero.Nat

/-!
# Effects of reductions

What the reduction of a UI node comes to is fixed by its operands and, if it only gives what is in
the box of its output, by that box. Nothing of it depends on what is below the operands, and it
fails before it has any effect.
-/

namespace DrawGraph

open Machine

/-- What comes of a reduction: the value that is left on the stack, the box that is filled, the draw
call that is made and whether a render target is ready. -/
structure Effect where
  value : Option Value := none
  stored : Option (Id × Value) := none
  call : Option DrawCall := none
  ready : Option Bool := none
deriving DecidableEq

namespace Effect

variable {σ : Type}

def gives (v : Value) : Effect := { value := some v }

def stores (out : Id) (v : Value) : Effect := { value := some v, stored := some (out, v) }

/-- The draw call, if it is complete. -/
def complete? (f : Effect) : Option DrawCall := f.call.filter DrawCall.isComplete

/-- The effect of a node on everything but the stack. -/
def note (f : Effect) (id : Id) (m : Machine σ) : Machine σ :=
  { m with
    values := f.stored.elim m.values fun p => m.values.put p.1 p.2
    calls := m.calls ++ if id ∈ m.submitted then [] else f.complete?.toList
    submitted :=
      (if id ∈ m.submitted then [] else f.complete?.toList.map fun _ => id) ++ m.submitted
    ready := f.ready.or m.ready }

/-- The effect of a node whose operands have been taken off the stack. -/
def onto (f : Effect) (id : Id) (m : Machine σ) : Machine σ :=
  { f.note id m with stack := f.value.toList ++ m.stack }

theorem onto_gives (v : Value) (id : Id) (m : Machine σ) :
    (gives v).onto id m = { m with stack := v :: m.stack } := by
  simp [onto, note, gives, complete?]

theorem onto_stores (out : Id) (v : Value) (id : Id) (m : Machine σ) :
    (stores out v).onto id m =
      { m with values := m.values.put out v, stack := v :: m.stack } := by
  simp [onto, note, stores, complete?]

theorem onto_ready (b : Bool) (id : Id) (m : Machine σ) :
    { ready := some b : Effect }.onto id m = { m with ready := some b } := by
  simp [onto, note, complete?]

/-- A draw call is queued unless the node has queued one already. -/
theorem onto_call {c : DrawCall} (hc : c.isComplete) (out : Id) (v : Value) (site : Site)
    (m : Machine σ) :
    { stores out v with call := some c }.onto site.node m =
      (stores out v).onto site.node ((submit site c).on m).2 := by
  have hsubmit : ((submit site c).on m).2 = if site.node ∈ m.submitted then m
      else { m with submitted := site.node :: m.submitted, calls := m.calls ++ [c] } := rfl
  rw [hsubmit]
  split
  · next hmem => simp [onto, note, stores, hmem]
  · next hmem => simp [onto, note, stores, complete?, hmem, Option.filter, hc]

theorem onto_incomplete {c : DrawCall} (hc : ¬ c.isComplete) (out : Id) (v : Value) (id : Id)
    (m : Machine σ) :
    { stores out v with call := some c }.onto id m = (stores out v).onto id m := by
  simp [onto, note, stores, complete?, Option.filter, hc]

end Effect

/-! ## Parts of reductions that only convert values -/

section Converting

variable {α β : Type}

theorem bind_eq_ok {ε : Type} {x : Except ε α} {g : α → Except ε β} {b : β}
    (h : x >>= g = .ok b) : ∃ a, x = .ok a ∧ g a = .ok b := by
  cases x with
  | error err => cases h
  | ok a => exact ⟨a, rfl, h⟩

/-- How a part of a reduction ends that has nothing to do with the walk. -/
def ending (x : Reduction Unit α) : Except EvalError α := (x.on { values := .empty, owner := () }).1

/-- A part of a reduction that has nothing to do with the walk. -/
def Steady (x : (σ : Type) → Reduction σ α) : Prop :=
  ∀ (σ : Type) (m : Machine σ), (x σ).on m = (ending (x Unit), m)

namespace Steady

variable {x : (σ : Type) → Reduction σ α} {f : α → (σ : Type) → Reduction σ β}

theorem pure (a : α) : Steady fun _ => (Pure.pure a) := fun _ _ => rfl

theorem throw (err : EvalError) : Steady fun σ => (throw err : Reduction σ α) := fun _ _ => rfl

theorem ending_bind (hx : Steady x) :
    ending (x Unit >>= fun a => f a Unit) = ending (x Unit) >>= fun a => ending (f a Unit) := by
  rw [ending, Attempt.on_bind, hx]
  cases ending (x Unit) <;> rfl

theorem on_bind (hx : Steady x) {σ : Type} (g : α → Reduction σ β) (m : Machine σ) :
    (x σ >>= g).on m =
      match ending (x Unit) with
      | .ok a => (g a).on m
      | .error err => (.error err, m) := by
  rw [Attempt.on_bind, hx]
  cases ending (x Unit) <;> rfl

theorem bind (hx : Steady x) (hf : ∀ a, Steady (f a)) :
    Steady fun σ => x σ >>= fun a => f a σ := by
  intro σ m
  rw [hx.on_bind, hx.ending_bind]
  cases ending (x Unit) with
  | error err => rfl
  | ok a => exact hf a σ m

end Steady

theorem steady_arithmetic (site : Site) (r : Except ValueError Value) :
    Steady fun _ => arithmetic site r := by
  cases r
  · exact .throw _
  · exact .pure _

theorem steady_expect (site : Site) (v : Value) (k : ValueKind) :
    Steady fun _ => expect site v k := by
  unfold expect
  cases v.coerce k
  · exact .throw _
  · exact .pure _

theorem steady_expectVec3 (site : Site) (v : Value) : Steady fun _ => expectVec3 site v := by
  refine (steady_expect site v .float3).bind fun w => ?_
  cases w <;> first | exact .pure _ | exact .throw _

theorem steady_constants (site : Site) (bs : List Binding) (vs : List Value) :
    Steady fun _ => Draw.constants site bs vs := by
  induction bs generalizing vs with
  | nil => exact .pure _
  | cons b bs ih =>
      cases vs with
      | nil => exact .pure _
      | cons v vs =>
          exact (steady_expect site v b.type.kind).bind fun w => (ih vs).bind fun cs => .pure _

end Converting

/-! ## Effects of UI nodes -/

/-- The draw call that a draw node makes of its operands, with the values of the shader's
variables. -/
def Draw.call (d : Draw) (vs : List Value) (constants : List Constant) : DrawCall :=
  let index (i : Nat) : Int32 := ((vs.getD i default).index?).getD noIndex
  { vertexShader := index 0
    pixelShader := index 0
    model := index 1
    color := d.color.map Binary32.unitClamp
    bindings := constants }

namespace UiNode

/-- The effect of a UI node that takes these operands off the stack. -/
def effect (n : UiNode) (site : Site) (values : ValueStore) (vs : List Value) :
    Except EvalError Effect := do
  let operand (i : Nat) : Value := vs.getD i default
  match n with
  | binary op _ _ _ out =>
    return .stores out (← ending (arithmetic site (Value.apply op (operand 0) (operand 1))))
  | sine _ _ out => return .stores out (operand 0).absSin
  | time _ out => return .stores out (.float site.time)
  | constant _ _ out loaded => return .gives (constantValue values out loaded)
  | asset _ _ out _ | primitive _ out _ => return .gives ((values.get? out).getD (.int noIndex))
  | camera c =>
    let eye ← ending (expectVec3 site (operand 0))
    let target ← ending (expectVec3 site (operand 1))
    return .stores c.output (.float4x4 (c.viewProjection eye target))
  | transform t =>
    let move ← ending (expectVec3 site (operand 0))
    let turn ← ending (expectVec3 site (operand 1))
    let scale ← ending (expectVec3 site (operand 2))
    return .stores t.output (.float4x4 (Transform.compose move turn scale))
  | draw d =>
    let call := d.call vs (← ending (Draw.constants site d.bindings (vs.drop 2)))
    let shown : Value := .float (if call.isComplete then 1 else 0)
    return { Effect.stores d.output shown with call := some call }
  | renderTarget .. => return { ready := some (operand 0).isNonzero }

/-- A render target that has been told whether it is ready. -/
def readied (ready : Option Bool) : UiNode → UiNode
  | renderTarget id input old => renderTarget id input (ready.getD old)
  | n => n

@[simp] theorem readied_none (n : UiNode) : n.readied none = n := by cases n <;> rfl

theorem readied_readied (n : UiNode) (a b : Option Bool) :
    (n.readied a).readied b = n.readied (b.or a) := by
  cases n with
  | renderTarget id input ready => cases b <;> rfl
  | _ => rfl

@[simp] theorem id_readied (r : Option Bool) (n : UiNode) : (n.readied r).id = n.id := by
  cases n <;> rfl

section Reducing

variable {σ : Type} {n : UiNode} {site : Site} {m : Machine σ} {vs rest : List Value}

/-- A part of a reduction after the operands have been taken off the stack. -/
def Comes (x : Reduction σ UiNode) (n : UiNode) (id : Id) (m : Machine σ)
    (r : Except EvalError Effect) : Prop :=
  x.on m = match r with
    | .ok f => (.ok (n.readied f.ready), f.onto id m)
    | .error err => (.error err, m)

theorem comes_emit (out : Id) (v : Value) (id : Id) (m : Machine σ) :
    Comes (do emit out v; return n) n id m (.ok (.stores out v)) := by
  rw [Comes, Attempt.on_bind_of_ok (emit_on m out v)]
  show _ = (Except.ok (n.readied none), (Effect.stores out v).onto id m)
  rw [readied_none, Effect.onto_stores]
  rfl

theorem comes_push (v : Value) (id : Id) (m : Machine σ) :
    Comes (do push v; return n) n id m (.ok (.gives v)) := by
  rw [Comes, Attempt.on_bind_of_ok (push_on m v)]
  show _ = (Except.ok (n.readied none), (Effect.gives v).onto id m)
  rw [readied_none, Effect.onto_gives]
  rfl

theorem comes_bind {α : Type} {x : (σ : Type) → Reduction σ α} {g : α → Reduction σ UiNode}
    {r : α → Except EvalError Effect} {id : Id} (hx : Steady x)
    (hg : ∀ a, Comes (g a) n id m (r a)) : Comes (x σ >>= g) n id m (ending (x Unit) >>= r) := by
  unfold Comes
  rw [hx.on_bind]
  cases ending (x Unit) with
  | error err => rfl
  | ok a => exact hg a

theorem comes_draw (d : Draw) (vs : List Value) (m : Machine σ) :
    Comes
      ((do
        let constants ← Draw.constants site d.bindings (vs.drop 2)
        if (d.call vs constants).isComplete then
          submit site (d.call vs constants)
          emit d.output (.float 1)
        else emit d.output (.float 0)) >>= fun _ => return .draw d)
      (.draw d) site.node m ((UiNode.draw d).effect site m.values vs) := by
  rw [bind_assoc]
  refine comes_bind (steady_constants site d.bindings (vs.drop 2)) fun constants => ?_
  unfold Comes
  by_cases hc : (d.call vs constants).isComplete
  · simp only [hc, if_true]
    show _ = (Except.ok (draw d), Effect.onto _ site.node m)
    rw [Effect.onto_call hc, Effect.onto_stores]
    rfl
  · simp only [hc, Bool.false_eq_true, if_false]
    show _ = (Except.ok (draw d), Effect.onto _ site.node m)
    rw [Effect.onto_incomplete hc, Effect.onto_stores]
    rfl

/-- A reduction takes its operands off the stack and comes to its effect. -/
theorem reduce_on (hlen : vs.length = n.inputs.length) (hstack : m.stack = vs.reverse ++ rest) :
    (n.reduce site).on m =
      match n.effect site m.values vs with
      | .ok f => (.ok (n.readied f.ready), f.onto site.node { m with stack := rest })
      | .error err => (.error err, { m with stack := rest }) := by
  cases n with
  | binary op id left right out =>
      obtain ⟨a, b, rfl⟩ := List.length_eq_two.1 hlen
      refine (Attempt.on_bind_of_ok (pop₂_on hstack)).trans ?_
      exact comes_bind (steady_arithmetic site _) fun v => comes_emit out v site.node _
  | sine id input out =>
      obtain ⟨a, rfl⟩ := List.length_eq_one_iff.1 hlen
      refine (Attempt.on_bind_of_ok (pop₁_on hstack)).trans ?_
      exact comes_emit out _ site.node _
  | time id out =>
      obtain rfl := List.length_eq_zero_iff.1 hlen
      obtain rfl : m.stack = rest := hstack
      exact comes_emit out _ site.node m
  | constant kind id out loaded =>
      obtain rfl := List.length_eq_zero_iff.1 hlen
      obtain rfl : m.stack = rest := hstack
      refine (Attempt.on_bind_of_ok (Attempt.on_get m)).trans ?_
      exact comes_push _ site.node m
  | asset kind id out path =>
      obtain rfl := List.length_eq_zero_iff.1 hlen
      obtain rfl : m.stack = rest := hstack
      refine (Attempt.on_bind_of_ok (box?_on m out)).trans ?_
      exact comes_push _ site.node m
  | primitive id out shape =>
      obtain rfl := List.length_eq_zero_iff.1 hlen
      obtain rfl : m.stack = rest := hstack
      refine (Attempt.on_bind_of_ok (box?_on m out)).trans ?_
      exact comes_push _ site.node m
  | camera c =>
      obtain ⟨eye, target, rfl⟩ := List.length_eq_two.1 hlen
      rw [reduce, Camera.reduce, bind_assoc, Attempt.on_bind_of_ok (pop₂_on hstack)]
      simp only [bind_assoc]
      exact comes_bind (steady_expectVec3 site eye) fun _ =>
        comes_bind (steady_expectVec3 site target) fun _ => comes_emit c.output _ site.node _
  | transform t =>
      obtain ⟨move, turn, scale, rfl⟩ := List.length_eq_three.1 hlen
      rw [reduce, Transform.reduce, bind_assoc, Attempt.on_bind_of_ok (pop₃_on hstack)]
      simp only [bind_assoc]
      exact comes_bind (steady_expectVec3 site move) fun _ =>
        comes_bind (steady_expectVec3 site turn) fun _ =>
          comes_bind (steady_expectVec3 site scale) fun _ => comes_emit t.output _ site.node _
  | draw d =>
      have hcount : vs.length = 2 + d.bindings.length := by
        rw [hlen, inputs, List.length_cons, List.length_cons, List.length_map]
        omega
      rw [reduce, Draw.reduce, bind_assoc, Attempt.on_bind_of_ok (pop_on hcount hstack)]
      exact comes_draw d vs _
  | renderTarget id input ready =>
      obtain ⟨a, rfl⟩ := List.length_eq_one_iff.1 hlen
      refine (Attempt.on_bind_of_ok (pop₁_on hstack)).trans ?_
      show _ = (Except.ok (renderTarget id input a.isNonzero), Effect.onto _ site.node _)
      rw [Effect.onto_ready]
      rfl

end Reducing

/-! ## What effects a UI node has -/

/-- An effect that a UI node of this kind can have. -/
structure Suits (n : UiNode) (f : Effect) : Prop where
  value : n.outputs ≠ [] → ∃ v, f.value = some v
  stored : ∀ p v, f.stored = some (p, v) → p ∈ n.results
  call : ∀ c, f.call = some c → ∃ d, n = draw d
  ready : n.isRenderTarget → ∃ b, f.ready = some b

variable {n n' : UiNode} {site : Site} {values values' : ValueStore} {vs : List Value} {f : Effect}

theorem suits_gives (hn : n.isRenderTarget = false) (v : Value) : n.Suits (.gives v) :=
  ⟨fun _ => ⟨v, rfl⟩, nofun, nofun, fun h => Bool.noConfusion (h.symm.trans hn)⟩

theorem suits_stores {out : Id} (hout : out ∈ n.results) (hn : n.isRenderTarget = false)
    (v : Value) : n.Suits (.stores out v) := by
  refine ⟨fun _ => ⟨v, rfl⟩, fun p u h => ?_, nofun, fun h => Bool.noConfusion (h.symm.trans hn)⟩
  cases h
  exact hout

theorem effect_draw {d : Draw} (h : (draw d).effect site values vs = .ok f) :
    ∃ cs, ending (Draw.constants site d.bindings (vs.drop 2)) = .ok cs ∧
      f = { Effect.stores d.output (.float (if (d.call vs cs).isComplete then 1 else 0)) with
            call := some (d.call vs cs) } := by
  obtain ⟨cs, hcs, h⟩ := bind_eq_ok h
  exact ⟨cs, hcs, (Except.ok.inj h).symm⟩

theorem suits_of_effect (h : n.effect site values vs = .ok f) : n.Suits f := by
  cases n with
  | binary op id left right out =>
      obtain ⟨v, _, h⟩ := bind_eq_ok h
      cases h
      exact suits_stores (List.mem_singleton.2 rfl) rfl v
  | sine id input out =>
      cases h
      exact suits_stores (List.mem_singleton.2 rfl) rfl _
  | time id out =>
      cases h
      exact suits_stores (List.mem_singleton.2 rfl) rfl _
  | constant | asset | primitive =>
      cases h
      exact suits_gives rfl _
  | camera c =>
      obtain ⟨eye, _, h⟩ := bind_eq_ok h
      obtain ⟨target, _, h⟩ := bind_eq_ok h
      cases h
      exact suits_stores (List.mem_singleton.2 rfl) rfl _
  | transform t =>
      obtain ⟨move, _, h⟩ := bind_eq_ok h
      obtain ⟨turn, _, h⟩ := bind_eq_ok h
      obtain ⟨scale, _, h⟩ := bind_eq_ok h
      cases h
      exact suits_stores (List.mem_singleton.2 rfl) rfl _
  | draw d =>
      obtain ⟨cs, _, rfl⟩ := effect_draw h
      have hstores (v : Value) : (draw d).Suits (.stores d.output v) :=
        suits_stores (List.mem_singleton.2 rfl) rfl v
      exact { hstores _ with call := fun _ _ => ⟨d, rfl⟩ }
  | renderTarget id input ready =>
      cases h
      exact ⟨fun h => absurd rfl h, nofun, nofun, fun _ => ⟨_, rfl⟩⟩

/-- Whether a render target is ready and what is in the boxes of results has no part in effects. -/
theorem effect_congr (hn : n'.unready = n.unready)
    (hbox : ∀ o ∈ n.outputs, o ∉ n.results → values'.get? o = values.get? o) :
    n'.effect site values' vs = n.effect site values vs := by
  have hunready (k : UiNode) (values : ValueStore) :
      k.effect site values vs = k.unready.effect site values vs := by
    cases k <;> rfl
  rw [hunready n', hn, ← hunready n]
  have hown (out : Id) (ho : out ∈ n.outputs) (hres : n.results = []) :
      values'.get? out = values.get? out := hbox out ho (hres ▸ List.not_mem_nil)
  cases n with
  | constant kind id out loaded =>
      simp only [effect, constantValue, hown out (List.mem_singleton.2 rfl) rfl]
  | asset kind id out path => simp only [effect, hown out (List.mem_singleton.2 rfl) rfl]
  | primitive id out shape => simp only [effect, hown out (List.mem_singleton.2 rfl) rfl]
  | _ => rfl

end UiNode

/-! ## The constants of draw calls -/

/-- The constant that comes of a value for a binding. -/
structure Constant.Takes (c : Constant) (b : Binding) (v : Value) : Prop where
  name : c.name = b.name
  type : c.type = b.type
  value : v.coerce b.type.kind = some c.value

theorem Constant.Takes.kind_eq {c : Constant} {b : Binding} {v : Value} (h : c.Takes b v) :
    c.value.kind = c.type.kind := by
  rw [h.type, Value.kind_of_coerce h.value]

theorem coerce_of_expect {site : Site} {v w : Value} {k : ValueKind}
    (h : ending (expect site v k) = .ok w) : v.coerce k = some w := by
  unfold expect at h
  cases hv : v.coerce k with
  | none =>
      rw [hv] at h
      cases h
  | some u =>
      rw [hv] at h
      cases h
      rfl

/-- The values of the shader's variables are converted one after another. -/
theorem takes_of_constants {site : Site} {bs : List Binding} {vs : List Value} {cs : List Constant}
    (h : ending (Draw.constants site bs vs) = .ok cs) :
    List.Forall₂ (fun p c => c.Takes p.1 p.2) (bs.zip vs) cs := by
  induction bs generalizing vs cs with
  | nil =>
      cases h
      exact .nil
  | cons b bs ih =>
      cases vs with
      | nil =>
          cases h
          exact .nil
      | cons v vs =>
          have hbind := (steady_expect site v b.type.kind).ending_bind
            (f := fun w σ => (Draw.constants site bs vs : Reduction σ _) >>= fun cs =>
              pure (⟨b.name, b.type, w⟩ :: cs))
          obtain ⟨w, hw, h⟩ := bind_eq_ok (hbind.symm.trans h)
          have hrest := (steady_constants site bs vs).ending_bind
            (f := fun cs _ => pure ((⟨b.name, b.type, w⟩ : Constant) :: cs))
          obtain ⟨rest, hcs, h⟩ := bind_eq_ok (hrest.symm.trans h)
          cases h
          exact .cons ⟨rfl, rfl, coerce_of_expect hw⟩ (ih hcs)

/-- The constants are of the kinds of their types. -/
theorem kind_of_takes {ps : List (Binding × Value)} {cs : List Constant}
    (h : List.Forall₂ (fun p c => c.Takes p.1 p.2) ps cs) :
    ∀ c ∈ cs, c.value.kind = c.type.kind := by
  induction h with
  | nil => exact fun c hc => nomatch hc
  | cons htakes _ ih =>
      intro c hc
      rcases List.mem_cons.1 hc with rfl | hc
      · exact htakes.kind_eq
      · exact ih c hc

namespace Draw

/-- The draw node makes this draw call of these operands. -/
def Calls (d : Draw) (vs : List Value) (c : DrawCall) : Prop :=
  ∃ constants, List.Forall₂ (fun p k => Constant.Takes k p.1 p.2) (d.bindings.zip (vs.drop 2))
    constants ∧ c = d.call vs constants

variable {d : Draw} {vs : List Value} {c : DrawCall}

theorem Calls.kind_eq (h : d.Calls vs c) : ∀ b ∈ c.bindings, b.value.kind = b.type.kind := by
  obtain ⟨constants, htakes, rfl⟩ := h
  exact kind_of_takes htakes

/-- Both shaders are the one that the draw node is given. -/
theorem Calls.isComplete_eq (h : d.Calls vs c) :
    c.isComplete = decide (0 ≤ c.vertexShader ∧ 0 ≤ c.model) := by
  obtain ⟨constants, _, rfl⟩ := h
  rw [Bool.decide_and, DrawCall.isComplete, show (d.call vs constants).pixelShader =
    (d.call vs constants).vertexShader from rfl, Bool.and_self]

end Draw

/-- There are as many numbers in the constants as their types say. -/
theorem DrawCall.length_constants {c : DrawCall}
    (h : ∀ b ∈ c.bindings, b.value.kind = b.type.kind) :
    c.constants.length = (c.bindings.map (·.type.componentCount)).sum := by
  rw [constants, List.length_flatMap]
  congr 1
  apply List.map_congr_left
  intro b hb
  rw [Value.length_components, h b hb, BindingType.componentCount]

end DrawGraph
