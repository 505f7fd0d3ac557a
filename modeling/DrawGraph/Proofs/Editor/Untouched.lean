import DrawGraph.Proofs.Editor.Evaluate

/-!
# What an evaluation leaves alone

A walk writes the boxes of results only: the outputs of UI nodes that compute what they give. Of the
UI nodes themselves it changes nothing but whether render targets are ready.
-/

namespace DrawGraph

open Evaluation Machine

namespace UiNode

/-- The outputs that a reduction writes. Constants, assets and primitives give what is in their
boxes. -/
def results : UiNode → List Id
  | constant .. | asset .. | primitive .. => []
  | n => n.outputs

def unready : UiNode → UiNode
  | renderTarget id input _ => renderTarget id input false
  | n => n

@[simp] theorem id_unready (n : UiNode) : n.unready.id = n.id := by cases n <;> rfl

@[simp] theorem results_unready (n : UiNode) : n.unready.results = n.results := by cases n <;> rfl

@[simp] theorem outputs_unready (n : UiNode) : n.unready.outputs = n.outputs := by cases n <;> rfl

@[simp] theorem inputs_unready (n : UiNode) : n.unready.inputs = n.inputs := by cases n <;> rfl

theorem results_subset (n : UiNode) : n.results ⊆ n.outputs := by
  cases n <;> simp [results, outputs]

@[simp] theorem unready_eq_draw {n : UiNode} {d : Draw} : n.unready = draw d ↔ n = draw d := by
  cases n <;> simp [unready]

end UiNode

/-! ## Views of a walk -/

/-- A view of a walk in which the stack and the readiness do not show. -/
structure Overlooks {σ τ : Type} (f : Machine σ → τ) : Prop where
  stack : ∀ (m : Machine σ) (vs : List Value), f { m with stack := vs } = f m
  ready : ∀ (m : Machine σ) (b : Option Bool), f { m with ready := b } = f m

section Views

variable {σ τ : Type} {f : Machine σ → τ} (hf : Overlooks f) (site : Site)

include hf

theorem preserves_push (v : Value) : (push v : Reduction σ Unit).Preserves f :=
  fun m => hf.stack m (v :: m.stack)

theorem preserves_pop (n : Nat) : (pop site n : Reduction σ (List Value)).Preserves f := by
  intro m
  rw [pop, Attempt.on_bind_of_ok (Attempt.on_get m)]
  by_cases h : m.stack.length < n
  · simp only [h, if_true]
    rfl
  · simp only [h, if_false]
    exact hf.stack m (m.stack.drop n)

theorem preserves_pop₁ : (pop₁ site : Reduction σ Value).Preserves f :=
  (preserves_pop hf site 1).bind fun _ => .pure _

theorem preserves_pop₂ : (pop₂ site : Reduction σ (Value × Value)).Preserves f :=
  (preserves_pop hf site 2).bind fun _ => .pure _

theorem preserves_pop₃ : (pop₃ site : Reduction σ (Value × Value × Value)).Preserves f :=
  (preserves_pop hf site 3).bind fun _ => .pure _

theorem preserves_emit {out : Id}
    (hout : ∀ (m : Machine σ) v, f { m with values := m.values.put out v } = f m) (v : Value) :
    (emit out v : Reduction σ Unit).Preserves f := by
  intro m
  rw [emit_on]
  exact (hf.stack { m with values := m.values.put out v } _).trans (hout m v)

theorem preserves_setReady (b : Bool) : (setReady b : Reduction σ Unit).Preserves f :=
  fun m => hf.ready m (some b)

omit hf

theorem preserves_expect (v : Value) (k : ValueKind) :
    (expect site v k : Reduction σ Value).Preserves f := by
  unfold expect
  cases v.coerce k
  · exact fun _ => rfl
  · exact .pure _

theorem preserves_arithmetic (r : Except ValueError Value) :
    (arithmetic site r : Reduction σ Value).Preserves f := by
  unfold arithmetic
  cases r
  · exact fun _ => rfl
  · exact .pure _

theorem preserves_expectVec3 (v : Value) : (expectVec3 site v : Reduction σ Vec3).Preserves f := by
  refine (preserves_expect site v .float3).bind fun w => ?_
  cases w <;> first | exact .pure _ | exact fun _ => rfl

theorem preserves_constants (bs : List Binding) (vs : List Value) :
    (Draw.constants site bs vs : Reduction σ (List Constant)).Preserves f := by
  induction bs generalizing vs with
  | nil => exact .pure _
  | cons b bs ih =>
      cases vs with
      | nil => exact .pure _
      | cons v vs =>
          exact (preserves_expect site v _).bind fun _ => (ih vs).bind fun _ => .pure _

include hf

/-- A view that shows neither the results of a UI node nor draw calls, unless it makes none, is the
same after its reduction. -/
theorem UiNode.preserves_reduce {n : UiNode}
    (hout : ∀ out ∈ n.results, ∀ (m : Machine σ) v,
      f { m with values := m.values.put out v } = f m)
    (hsubmit : ∀ d, n = draw d → ∀ c, (submit site c : Reduction σ Unit).Preserves f) :
    (n.reduce site : Reduction σ UiNode).Preserves f := by
  cases n with
  | binary op id left right out =>
      have hemit := preserves_emit hf (hout out (List.mem_singleton.2 rfl))
      exact (preserves_pop₂ hf site).bind fun _ => (preserves_arithmetic site _).bind fun v =>
        (hemit v).bind fun _ => .pure _
  | sine id input out =>
      have hemit := preserves_emit hf (hout out (List.mem_singleton.2 rfl))
      exact (preserves_pop₁ hf site).bind fun v => (hemit v.absSin).bind fun _ => .pure _
  | time id out =>
      have hemit := preserves_emit hf (hout out (List.mem_singleton.2 rfl))
      exact (hemit (.float site.time)).bind fun _ => .pure _
  | constant kind id out loaded =>
      exact Attempt.Preserves.bind (fun _ => rfl) fun m =>
        (preserves_push hf _).bind fun _ => .pure _
  | asset kind id out path =>
      exact Attempt.Preserves.bind (fun _ => rfl) fun m =>
        (preserves_push hf _).bind fun _ => .pure _
  | primitive id out shape =>
      exact Attempt.Preserves.bind (fun _ => rfl) fun m =>
        (preserves_push hf _).bind fun _ => .pure _
  | camera c =>
      have hemit := preserves_emit hf (hout c.output (List.mem_singleton.2 rfl))
      exact ((preserves_pop₂ hf site).bind fun _ => (preserves_expectVec3 site _).bind fun _ =>
        (preserves_expectVec3 site _).bind fun _ => hemit _).bind fun _ => .pure _
  | transform t =>
      have hemit := preserves_emit hf (hout t.output (List.mem_singleton.2 rfl))
      exact ((preserves_pop₃ hf site).bind fun _ => (preserves_expectVec3 site _).bind fun _ =>
        (preserves_expectVec3 site _).bind fun _ => (preserves_expectVec3 site _).bind fun _ =>
          hemit _).bind fun _ => .pure _
  | draw d =>
      have hemit := preserves_emit hf (hout d.output (List.mem_singleton.2 rfl))
      refine ((preserves_pop hf site _).bind fun vs =>
        (preserves_constants site _ _).bind fun cs => ?_).bind fun _ => .pure _
      dsimp only
      split
      · exact (hsubmit d rfl _).bind fun _ => hemit _
      · exact hemit _
  | renderTarget id input ready =>
      exact (preserves_pop₁ hf site).bind fun _ => (preserves_setReady hf _).bind fun _ => .pure _

/-- The rules of nodes that nobody owns write no box. -/
theorem preserves_builtin (hsubmit : ∀ c, (submit site c : Reduction σ Unit).Preserves f)
    (x : Float32) : (builtin site x : Reduction σ Unit).Preserves f := by
  have hbinary (op : BinaryOp) : (binary site op : Reduction σ Unit).Preserves f :=
    (preserves_pop₂ hf site).bind fun _ => (preserves_arithmetic site _).bind fun v =>
      preserves_push hf v
  have hdraw : (Evaluation.draw site : Reduction σ Unit).Preserves f := by
    refine (preserves_pop hf site 6).bind fun vs => ?_
    dsimp only
    split
    · exact (hsubmit _).bind fun _ => preserves_push hf _
    · exact preserves_push hf _
  unfold builtin
  split
  · exact hbinary .add
  · exact hbinary .multiply
  · exact (preserves_pop₁ hf site).bind fun _ => preserves_push hf _
  · exact preserves_push hf _
  · exact hdraw
  · exact (preserves_pop₁ hf site).bind fun _ => preserves_setReady hf _
  · exact fun _ => rfl
  · exact fun _ => rfl
  · exact Attempt.Preserves.bind (fun _ => rfl) fun _ => preserves_push hf _

end Views

/-- What is in a box during a walk, beside the state of the owner. -/
def boxOf {σ : Type} (p : Id) (m : Machine σ) : Option Value × σ := (m.values.get? p, m.owner)

theorem overlooks_boxOf {σ : Type} (p : Id) : Overlooks (boxOf p : Machine σ → _) :=
  ⟨fun _ _ => rfl, fun _ _ => rfl⟩

theorem boxOf_submit {σ : Type} (p : Id) (site : Site) (c : DrawCall) :
    (submit site c : Reduction σ Unit).Preserves (boxOf p) := by
  intro m
  obtain ⟨m', hm', _, hvalues, howner⟩ := submit_on site m c
  rw [hm', boxOf, hvalues, howner, boxOf]

/-! ## UI nodes -/

namespace UiNode

variable {σ : Type} {n n' : UiNode} {site : Site} {m m' : Machine σ}

/-- A reduction gives back its UI node, ready or not. -/
theorem unready_reduce (h : (n.reduce site).on m = (.ok n', m')) : n'.unready = n.unready := by
  have hreturns : Attempt.Returns (n.reduce site : Reduction σ UiNode)
      fun k => k.unready = n.unready := by
    cases n with
    | binary op id left right out => exact .bind fun _ => .bind fun _ => .bind fun _ => .pure rfl
    | sine id input out => exact .bind fun _ => .bind fun _ => .pure rfl
    | time id out => exact .bind fun _ => .pure rfl
    | constant kind id out loaded => exact .bind fun _ => .bind fun _ => .pure rfl
    | asset kind id out path => exact .bind fun _ => .bind fun _ => .pure rfl
    | primitive id out shape => exact .bind fun _ => .bind fun _ => .pure rfl
    | camera c => exact .bind fun _ => .pure rfl
    | transform t => exact .bind fun _ => .pure rfl
    | draw d => exact .bind fun _ => .pure rfl
    | renderTarget id input ready => exact .bind fun _ => .bind fun _ => .pure rfl
  exact hreturns m n' m' h

end UiNode

/-! ## Walks -/

namespace Editor

/-- A step of a walk over the UI nodes, which are compared without being ready or not. -/
def Untouched (nodes : List UiNode) (p : Id) (m m' : Machine (List UiNode)) : Prop :=
  m.owner.map UiNode.unready = nodes →
    m'.values.get? p = m.values.get? p ∧ m'.owner.map UiNode.unready = nodes

variable {nodes : List UiNode} {p : Id} {m m' : Machine (List UiNode)}

theorem Untouched.of_boxOf (h : boxOf p m' = boxOf p m) : Untouched nodes p m m' := by
  obtain ⟨hbox, howner⟩ := Prod.mk.inj h
  exact fun hm => ⟨hbox, howner ▸ hm⟩

theorem moves_of_preserves {α : Type} {x : Reduction (List UiNode) α} (h : x.Preserves (boxOf p)) :
    Attempt.Moves (Untouched nodes p) x :=
  fun m => .single (.of_boxOf (h m))

/-- The UI nodes with an identity are found at the same place, ready or not. -/
theorem find?_of_unready {ns ns' : List UiNode} (h : ns'.map UiNode.unready = ns.map UiNode.unready)
    {id : Id} {n : UiNode} (hn : ns.find? (·.id == id) = some n) :
    ∃ k, ns'.find? (·.id == id) = some k ∧ k.unready = n.unready := by
  have hfind := congrArg (List.find? (·.id == id)) h
  have hid : ((·.id == id) ∘ UiNode.unready : UiNode → Bool) = (·.id == id) := by
    funext k
    rw [Function.comp_apply, k.id_unready]
  rw [List.find?_map, List.find?_map, hid, hn, Option.map_some] at hfind
  exact Option.map_eq_some_iff.1 hfind

/-- Putting a UI node back changes only whether it is ready. -/
theorem map_unready_replace {ns : List UiNode} (hnodup : (ns.map UiNode.id).Nodup) {n n' : UiNode}
    (hn : n ∈ ns) (hn' : n'.unready = n.unready) :
    (ns.map fun k => if k.id = n'.id then n' else k).map UiNode.unready =
      ns.map UiNode.unready := by
  have hid : n'.id = n.id := by rw [← n'.id_unready, hn', n.id_unready]
  rw [List.map_map]
  apply List.map_congr_left
  intro k hk
  by_cases hkid : k.id = n'.id
  · rw [List.inj_on_of_nodup_map hnodup hk hn (hkid.trans hid)]
    simp [hid, hn']
  · simp [hkid]

section Walk

variable (hnodup : (nodes.map UiNode.id).Nodup)

include hnodup

theorem moves_owners (site : Site) (hp : ∀ n ∈ nodes, n.id = site.node → p ∉ n.results) :
    Attempt.Moves (Untouched nodes p) (owners site) := by
  intro m
  apply Relation.ReflTransGen.single
  intro hm
  have hids : (m.owner.map UiNode.id).Nodup := by
    have hmap : m.owner.map UiNode.id = (m.owner.map UiNode.unready).map UiNode.id := by
      rw [List.map_map]
      exact List.map_congr_left fun n _ => (n.id_unready).symm
    rw [hmap, hm]
    exact hnodup
  rw [owners, Attempt.on_bind_of_ok (Attempt.on_get m)]
  cases hfind : m.owner.find? (·.id == site.node) with
  | none => exact ⟨rfl, hm⟩
  | some n =>
      have hn : n ∈ m.owner := List.mem_of_find?_eq_some hfind
      have hpn : p ∉ n.results := by
        have hid : n.id = site.node := by simpa using List.find?_some hfind
        rw [← n.results_unready]
        exact hp _ (hm ▸ List.mem_map_of_mem hn) (n.id_unready.trans hid)
      have hout : ∀ out ∈ n.results, ∀ (m : Machine (List UiNode)) v,
          boxOf p { m with values := m.values.put out v } = boxOf p m := by
        intro out hout m v
        have hne : p ≠ out := by
          rintro rfl
          exact hpn hout
        simp [boxOf, Table.get?_put, hne]
      have hkept := UiNode.preserves_reduce (overlooks_boxOf p) site hout
        (fun _ _ => boxOf_submit p site) m
      dsimp only
      rw [Attempt.on_bind]
      cases hx : (n.reduce site).on m with
      | mk r m₁ =>
          rw [hx] at hkept
          obtain ⟨hbox, howner⟩ := Prod.mk.inj hkept
          cases r with
          | error err => exact ⟨hbox, howner ▸ hm⟩
          | ok n' =>
              refine ⟨hbox, ?_⟩
              change (m₁.owner.map fun k => if k.id = n'.id then n' else k).map _ = _
              rw [show m₁.owner = m.owner from howner, ← hm]
              exact map_unready_replace hids hn (UiNode.unready_reduce hx)

theorem moves_visit (g : Graph) (time : Float32) {id : Id}
    (hp : ∀ n ∈ nodes, n.id = id → p ∉ n.results) :
    Attempt.Moves (Untouched nodes p) (visit g time owners id) := by
  unfold visit
  split
  · exact moves_of_preserves fun _ => rfl
  · next n _ =>
    split
    · split
      · exact moves_of_preserves (Attempt.Preserves.bind (fun _ => rfl) fun _ =>
          preserves_push (overlooks_boxOf p) _)
      · exact .pure _
    · refine .bind (moves_owners hnodup _ hp) fun taken => ?_
      split
      · exact moves_of_preserves (preserves_builtin (overlooks_boxOf p) _ (boxOf_submit p _) _)
      · exact .pure _

theorem moves_replay (g : Graph) (time : Float32) {order : List Id}
    (hp : ∀ n ∈ nodes, n.id ∈ order → p ∉ n.results) :
    Attempt.Moves (Untouched nodes p) (replay g time owners order) := by
  induction order with
  | nil => exact .pure _
  | cons id ids ih =>
      refine .bind (moves_visit hnodup g time fun n hn hid => ?_) fun _ => ih fun n hn hid => ?_
      · exact hp n hn (hid ▸ List.mem_cons_self)
      · exact hp n hn (List.mem_cons_of_mem _ hid)

end Walk

theorem Untouched.trans {m'' : Machine (List UiNode)} (h : Untouched nodes p m m')
    (h' : Untouched nodes p m' m'') : Untouched nodes p m m'' := by
  intro hm
  obtain ⟨hbox, hm'⟩ := h hm
  obtain ⟨hbox', hm''⟩ := h' hm'
  exact ⟨hbox'.trans hbox, hm''⟩

theorem untouched_of_moves (h : Relation.ReflTransGen (Untouched nodes p) m m') :
    Untouched nodes p m m' := by
  induction h with
  | refl => exact fun hm => ⟨rfl, hm⟩
  | tail _ hstep ih => exact ih.trans hstep

/-! ## Evaluations -/

variable {w : Wiring} {e : Editor}

theorem Sound.owns_lt (hs : e.Sound w) {n : UiNode} (hn : n ∈ e.nodes) {id : Id}
    (hid : id ∈ n.id :: n.pins) : id < e.graph.nextId := by
  obtain ⟨r, hr, _⟩ := (hs.casts.plays n hn).home_eq hid
  exact hs.wired.consistent.node_lt id (hs.wired.hasNode hr)

theorem map_id_unready (ns : List UiNode) :
    (ns.map UiNode.unready).map UiNode.id = ns.map UiNode.id := by
  rw [List.map_map]
  exact List.map_congr_left fun n _ => n.id_unready

/-- A walk, whether it fails or not, writes only results of UI nodes that it visits. -/
theorem replayed_untouched (hnodup : (e.nodes.map UiNode.id).Nodup) {order : List Id}
    (hp : ∀ n ∈ e.nodes, n.id ∈ order → p ∉ n.results) :
    (e.replayed order).2.values.get? p = e.values.get? p ∧
      (e.replayed order).2.owner.map UiNode.unready = e.nodes.map UiNode.unready := by
  have hmoves : Attempt.Moves (Untouched (e.nodes.map UiNode.unready) p)
      (replay e.graph e.clock.elapsed owners order) := by
    apply moves_replay
    · rwa [map_id_unready]
    · intro n hn hid
      obtain ⟨k, hk, rfl⟩ := List.mem_map.1 hn
      rw [k.results_unready]
      exact hp k hk (k.id_unready ▸ hid)
  exact untouched_of_moves (hmoves e.start) rfl

/-- The output gives an index that nobody computes. -/
def Indicates (e : Editor) (o : Id) (index : Int32) : Prop :=
  (∃ n ∈ e.nodes, o ∈ n.outputs ∧ o ∉ n.results) ∧ e.values.get? o = some (.int index)

/-- The UI nodes have different identities, and some id is no result of theirs. -/
structure Distinct (e : Editor) : Prop where
  nodup : (e.nodes.map UiNode.id).Nodup
  unused : ∃ p, ∀ n ∈ e.nodes, p ∉ n.results

theorem Distinct.of_lt (hnodup : (e.nodes.map UiNode.id).Nodup)
    (hlt : ∀ n ∈ e.nodes, ∀ o ∈ n.outputs, o < e.graph.nextId) : e.Distinct where
  nodup := hnodup
  unused := ⟨e.graph.nextId, fun n hn hmem =>
    UInt32.lt_irrefl _ (hlt n hn _ (n.results_subset hmem))⟩

theorem Sound.distinct (hs : e.Sound w) : e.Distinct :=
  .of_lt hs.casts.nodup fun _ hn _ ho =>
    hs.owns_lt hn (List.mem_cons_of_mem _ (List.mem_append_right _ ho))

/-- How a walk leaves the boxes and the UI nodes, whether it fails or not. -/
theorem Distinct.replayed (h : e.Distinct) (order : List Id) :
    (∀ p, (∀ n ∈ e.nodes, n.id ∈ order → p ∉ n.results) →
      (e.replayed order).2.values.get? p = e.values.get? p) ∧
      (e.replayed order).2.owner.map UiNode.unready = e.nodes.map UiNode.unready := by
  obtain ⟨p, hp⟩ := h.unused
  exact ⟨fun p hp => (replayed_untouched h.nodup hp).1,
    (replayed_untouched h.nodup fun n hn _ => hp n hn).2⟩

theorem foldl_render (calls : List DrawCall) (s : Services) :
    ∃ renderer, calls.foldl render s = { s with renderer } := by
  induction calls generalizing s with
  | nil => exact ⟨s.renderer, rfl⟩
  | cons c calls ih =>
      obtain ⟨renderer, hrenderer⟩ := ih (render s c)
      refine ⟨renderer, hrenderer.trans ?_⟩
      rw [render]
      split <;> rfl

theorem shaders_foldl_render (calls : List DrawCall) (s : Services) :
    (calls.foldl render s).shaders = s.shaders := by
  obtain ⟨renderer, heq⟩ := foldl_render calls s
  rw [heq]

/-- What an evaluation leaves as it was. -/
structure Evaluated (e e' : Editor) : Prop where
  graph : e'.graph = e.graph
  bus : e'.bus = e.bus
  root : e'.root = e.root
  shaders : e'.scene.services.shaders = e.scene.services.shaders
  nodes : e'.nodes.map UiNode.unready = e.nodes.map UiNode.unready
  box : ∀ p, (∀ n ∈ e.nodes, p ∉ n.results) → e'.values.get? p = e.values.get? p

theorem Evaluated.refl (e : Editor) : Evaluated e e := ⟨rfl, rfl, rfl, rfl, rfl, fun _ _ => rfl⟩

theorem invalidate_eq (e : Editor) (id : Id) : ∃ nodes, e.invalidate id = { e with nodes } := by
  unfold invalidate
  split
  · exact ⟨_, rfl⟩
  · exact ⟨e.nodes, rfl⟩

theorem Evaluated.invalidate {e' : Editor} (h : Evaluated e e') (hdistinct : e.Distinct) (id : Id) :
    Evaluated e (e'.invalidate id) := by
  unfold Editor.invalidate
  split
  · next id' input ready hn =>
    have hnodup : (e'.nodes.map UiNode.id).Nodup := by
      rw [← map_id_unready, h.nodes, map_id_unready]
      exact hdistinct.nodup
    have hready : (UiNode.renderTarget id' input false).unready =
        (UiNode.renderTarget id' input ready).unready := rfl
    have hnodes := map_unready_replace hnodup (node?_eq_some hn).1 hready
    exact { h with nodes := hnodes.trans h.nodes }
  · exact h

theorem Distinct.evaluated (h : e.Distinct) : Evaluated e e.evaluate.2 := by
  cases hroot : e.root with
  | none =>
      simp only [evaluate, hroot]
      exact .refl e
  | some root =>
      cases hr : e.graph.reductionOrder e.settings root with
      | error err =>
          rw [evaluate_of_no_order hroot hr]
          exact (Evaluated.refl e).invalidate h root
      | ok order =>
          rw [evaluate_of_order hroot hr]
          obtain ⟨hbox, hnodes⟩ := h.replayed order
          generalize e.replayed order = r at hbox hnodes
          obtain ⟨r, m⟩ := r
          have hwalked : Evaluated e (e.walked m) :=
            ⟨rfl, rfl, rfl, rfl, hnodes, fun p hp => hbox p fun n hn _ => hp n hn⟩
          cases r with
          | error err => exact hwalked.invalidate h root
          | ok u => exact { hwalked with shaders := shaders_foldl_render m.calls _ }

theorem Sound.evaluated (hs : e.Sound w) : Evaluated e e.evaluate.2 := hs.distinct.evaluated

end Editor

end DrawGraph
