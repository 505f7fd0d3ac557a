import DrawGraph.Host.Demo
import DrawGraph.Proofs.Editor.Sketch

/-!
# Feeding the inputs of a draw node

A variable is fed by a UI node of its own, and those that give pulsing numbers share one clock. What
this adds to an editor is known beforehand, down to the number of ids, so that feeding one variable
after another succeeds as long as ids are left for all of them.
-/

namespace DrawGraph

open DrawGraph.Graph

/-- The kind of the values that a UI node gives, if it has an output and the kind is fixed. -/
def UiNodeKind.gives? : UiNodeKind → Option ValueKind
  | add | multiply | renderTarget => none
  | sine | time | scalar | draw => some .float
  | vector2 => some .float2
  | vector3 => some .float3
  | vector4 => some .float4
  | matrix4x4 | camera | transform => some .float4x4
  | model | texture | shader | primitive => some .int

namespace UiNode

variable {n : UiNode}

theorem gives_of_kind {v : ValueKind} (h : n.kind.gives? = some v) :
    n.offer = .exactly v ∧ ∃ o, n.outputs = [o] := by
  cases n with
  | binary op => cases op <;> cases h
  | constant kind => cases kind <;> cases h <;> exact ⟨rfl, _, rfl⟩
  | asset kind => cases kind <;> cases h <;> exact ⟨rfl, _, rfl⟩
  | renderTarget => cases h
  | _ => cases h; exact ⟨rfl, _, rfl⟩

theorem eq_sine_of_kind (h : n.kind = .sine) : ∃ id i o, n = .sine id i o := by
  cases n with
  | sine id i o => exact ⟨id, i, o, rfl⟩
  | binary op | constant op | asset op => cases op <;> cases h
  | _ => cases h

theorem eq_asset_of_kind {kind : AssetKind} (h : n.kind = (asset kind 0 0 none).kind) :
    ∃ id o path, n = .asset kind id o path := by
  cases n with
  | asset kind' id o path =>
      cases kind <;> cases kind' <;> cases h <;> exact ⟨id, o, path, rfl⟩
  | binary op | constant op => cases kind <;> cases op <;> cases h
  | _ => cases kind <;> cases h

theorem eq_draw_of_kind (h : n.kind = .draw) : ∃ d, n = .draw d := by
  cases n with
  | draw d => exact ⟨d, rfl⟩
  | binary op | constant op | asset op => cases op <;> cases h
  | _ => cases h

theorem eq_renderTarget_of_kind (h : n.kind = .renderTarget) :
    ∃ id i ready, n = .renderTarget id i ready := by
  cases n with
  | renderTarget id i ready => exact ⟨id, i, ready, rfl⟩
  | binary op | constant op | asset op => cases op <;> cases h
  | _ => cases h

end UiNode

namespace Editor.Sketch

variable {k k' k'' : Sketch} {e : Editor} {d : Draw} {n : UiNode} {ns ns' : List UiNode}
  {ls ls' : List (Id × Id)} {i o : Id}

/-- UI nodes and links are added, and nothing is lost. -/
structure Adds (k : Sketch) (ns : List UiNode) (ls : List (Id × Id)) (k' : Sketch) : Prop where
  nodes : k'.nodes.Perm (k.nodes ++ ns)
  links : k'.links.Perm (ls ++ k.links)
  indices : k.indices ⊆ k'.indices
  root : k'.root = k.root
  ids : k'.ids = k.ids + (ns.map (·.kind.ids)).sum + ls.length
  settings : k'.settings = k.settings

namespace Adds

theorem refl (k : Sketch) : k.Adds [] [] k :=
  ⟨by simp, .refl _, fun _ h => h, rfl, rfl, rfl⟩

theorem node (k : Sketch) (h : n.isRenderTarget = false) : k.Adds [n] [] (k.add n) :=
  ⟨.refl _, .refl _, fun _ h => h, by simp [Sketch.add, h], by simp [Sketch.add], rfl⟩

theorem link (k : Sketch) (i o : Id) : k.Adds [] [(i, o)] (k.link i o) :=
  ⟨by simp [Sketch.link], .refl _, fun _ h => h, rfl, rfl, rfl⟩

theorem trans (h : k.Adds ns ls k') (h' : k'.Adds ns' ls' k'') :
    k.Adds (ns ++ ns') (ls' ++ ls) k'' where
  nodes := h'.nodes.trans (by simpa using h.nodes.append_right ns')
  links := h'.links.trans (by simpa using h.links.append_left ls')
  indices := fun _ hp => h'.indices (h.indices hp)
  root := h'.root.trans h.root
  ids := by
    rw [h'.ids, h.ids, List.map_append, List.sum_append, List.length_append]
    omega
  settings := h'.settings.trans h.settings

theorem perm (h : k.Adds ns ls k') (hns : ns.Perm ns') : k.Adds ns' ls k' :=
  { h with
    nodes := h.nodes.trans (hns.append_left _)
    ids := h.ids.trans (by rw [(hns.map _).sum_eq]) }

theorem mem_nodes (h : k.Adds ns ls k') : n ∈ k'.nodes ↔ n ∈ k.nodes ∨ n ∈ ns := by
  rw [h.nodes.mem_iff, List.mem_append]

theorem mem_links (h : k.Adds ns ls k') {l : Id × Id} : l ∈ k'.links ↔ l ∈ ls ∨ l ∈ k.links := by
  rw [h.links.mem_iff, List.mem_append]

end Adds

/-- A time node gives the output. -/
def Ticks (k : Sketch) (o : Id) : Prop := ∃ t ∈ k.nodes, t.kind = .time ∧ t.outputs = [o]

theorem Ticks.adds (h : k.Ticks o) (hadds : k.Adds ns ls k') : k'.Ticks o := by
  obtain ⟨t, ht, hkind, ho⟩ := h
  exact ⟨t, hadds.mem_nodes.2 (Or.inl ht), hkind, ho⟩

/-- There is one draw node, which nobody takes in yet. Only its inputs and those of sines are
linked. -/
structure Unshown (d : Draw) (k : Sketch) : Prop where
  draw_iff : ∀ d', .draw d' ∈ k.nodes ↔ d' = d
  idle : ∀ l ∈ k.links, l.2 ≠ d.output
  heads : ∀ l ∈ k.links, ∃ n ∈ k.nodes, l.1 ∈ n.inputs ∧ (n = .draw d ∨ n.kind = .sine)

theorem Unshown.adds (h : Unshown d k) (hadds : k.Adds ns ls k') (hns : ∀ n ∈ ns, n.kind ≠ .draw)
    (hls : ∀ l ∈ ls, l.2 ≠ d.output ∧
      ∃ n ∈ k'.nodes, l.1 ∈ n.inputs ∧ (n = .draw d ∨ n.kind = .sine)) : Unshown d k' where
  draw_iff d' := by
    rw [hadds.mem_nodes, h.draw_iff, or_iff_left]
    exact fun hmem => hns _ hmem rfl
  idle l hl := (hadds.mem_links.1 hl).elim (fun h => (hls l h).1) (h.idle l)
  heads l hl := by
    rcases hadds.mem_links.1 hl with hl | hl
    · exact (hls l hl).2
    · obtain ⟨n, hn, hhead⟩ := h.heads l hl
      exact ⟨n, hadds.mem_nodes.2 (Or.inl hn), hhead⟩

/-- An input of the draw node is linked. -/
theorem Unshown.link (h : Unshown d k) (hi : i ∈ (UiNode.draw d).inputs) (ho : o ≠ d.output) :
    Unshown d (k.link i o) := by
  refine h.adds (.link k i o) (fun _ h => nomatch h) fun l hl => ?_
  rw [List.mem_singleton.1 hl]
  exact ⟨ho, _, (h.draw_iff d).2 rfl, hi, Or.inl rfl⟩

/-- Inputs of other UI nodes are free. -/
theorem Unshown.free (hk : Unshown d k) (h : k.Depicts e) (hn : n ∈ k.nodes) (hd : n.kind ≠ .draw)
    (hsine : n.kind ≠ .sine) (hi : i ∈ n.inputs) (o : Id) : (i, o) ∉ k.links := by
  intro hl
  obtain ⟨m, hm, him, hkind⟩ := hk.heads _ hl
  obtain rfl := h.eq_of_pin hm hn (List.mem_cons_of_mem _ (List.mem_append_left _ him))
    (List.mem_cons_of_mem _ (List.mem_append_left _ hi))
  exact hkind.elim (fun heq => hd (heq ▸ rfl)) hsine

/-- What another UI node gives is not what the draw node gives. -/
theorem Depicts.ne_output (h : k.Depicts e) (hd : .draw d ∈ k.nodes) (hn : n ∈ k.nodes)
    (hkind : n.kind ≠ .draw) (ho : o ∈ n.outputs) : o ≠ d.output := by
  rintro rfl
  have hsame := h.eq_of_pin hn hd
    (List.mem_cons_of_mem _ (List.mem_append_right _ ho))
    (List.mem_cons_of_mem _ (List.mem_append_right _ (List.mem_singleton_self d.output)))
  rw [hsame] at hkind
  exact hkind rfl

end Editor.Sketch

namespace Demo

open Editor Editor.Sketch

variable {e e' : Editor} {k k' k'' : Sketch} {c : HostConfig} {d : Draw} {n : UiNode} {b : Binding}
  {bs : List Binding} {clock clock' clock'' : Option Id} {id i o edge : Id} {index : Int32}
  {path : Option String} {v : String × BindingType} {vars : List (String × BindingType)}

/-! ## What feeding takes -/

/-- The kind of the UI node that feeds a variable. -/
def feeder (v : String × BindingType) : UiNodeKind := feederKind v.2.kind v.1

/-- Numbers pulse with one clock. -/
def clocks (vars : List (String × BindingType)) : Nat :=
  if vars.any (feeder · = .sine) then 1 else 0

/-- How many ids it takes to feed a variable: for its feeder, and for the link of each. -/
def idsOf (v : String × BindingType) : Nat :=
  (feeder v).ids + if feeder v = .sine then 2 else 1

/-- A feeder gives values that the variable takes, and is no draw node or render target. -/
theorem gives_feeder (v : String × BindingType) : (∃ source, (feeder v).gives? = some source ∧
    source.canFeed v.2.kind) ∧ feeder v ≠ .draw ∧ feeder v ≠ .renderTarget ∧ feeder v ≠ .time := by
  unfold feeder feederKind
  cases v.2.kind with
  | float4x4 => dsimp only; split <;> exact ⟨⟨_, rfl, rfl⟩, nofun, nofun, nofun⟩
  | _ => exact ⟨⟨_, rfl, rfl⟩, nofun, nofun, nofun⟩

/-- The clocks that are still to be added. -/
def wanted (clock : Option Id) (vars : List (String × BindingType)) : Nat :=
  if clock.isSome then 0 else clocks vars

def cost (clock : Option Id) (vars : List (String × BindingType)) : Nat :=
  (vars.map idsOf).sum + 3 * wanted clock vars

theorem wanted_cons (h : clock'.isSome = (clock.isSome || feeder v = .sine))
    (vars : List (String × BindingType)) :
    wanted clock (v :: vars) = wanted clock [v] + wanted clock' vars := by
  have hany : clocks (v :: vars) = if feeder v = .sine then 1 else clocks vars := by
    unfold clocks
    rw [List.any_cons]
    by_cases hsine : feeder v = .sine
    · rw [if_pos hsine, decide_eq_true hsine, Bool.true_or, if_pos rfl]
    · rw [if_neg hsine, decide_eq_false hsine, Bool.false_or]
  unfold wanted
  rw [h, hany]
  by_cases hsome : clock.isSome <;> by_cases hsine : feeder v = .sine <;>
    simp [hsome, hsine, clocks]

theorem cost_cons (h : clock'.isSome = (clock.isSome || feeder v = .sine))
    (vars : List (String × BindingType)) :
    cost clock (v :: vars) = cost clock [v] + cost clock' vars := by
  unfold cost
  rw [wanted_cons h]
  simp only [List.map_cons, List.sum_cons, List.map_nil, List.sum_nil]
  omega

/-! ## Steps of a build -/

theorem on_discard {α : Type} {x : Build α} {a : α} (h : x.on e = (.ok a, e')) :
    (discard x).on e = (.ok (), e') := by
  rw [discard, map_const, Function.comp_apply, map_eq_pure_bind]
  exact Attempt.on_bind_of_ok h

theorem link_on (h : e.link i o = (.ok edge, e')) : (link i o).on e = (.ok (), e') :=
  on_discard (x := Attempt.of (·.link i o)) h

theorem setAsset_on (h : e.setAsset id path = (.ok index, e')) :
    (setAsset id path).on e = (.ok (), e') :=
  on_discard (x := Attempt.of (·.setAsset id path)) h

theorem ofNode_on {α : Type} {f : UiNode → Option α} {a : α} (h : k.Depicts e) (hn : n ∈ k.nodes)
    (ha : f n = some a) : (ofNode n.id f).on e = (.ok a, e) := by
  rw [ofNode, Attempt.on_of, h.node? hn, Option.bind_some, ha]

theorem output_on (h : k.Depicts e) (hn : n ∈ k.nodes) (ho : n.outputs = [o]) :
    (output n.id).on e = (.ok o, e) :=
  ofNode_on h hn (by rw [ho]; rfl)

theorem input_on (h : k.Depicts e) (hn : n ∈ k.nodes) (hi : n.inputs = [i]) :
    (input n.id).on e = (.ok i, e) :=
  ofNode_on h hn (by rw [hi]; rfl)

/-! ## One variable is fed -/

/-- The UI node gives an output for an input, and is given the time if it is a sine. -/
structure Fed (k : Sketch) (v : String × BindingType) (pin : Id) (n : UiNode) : Prop where
  mem : n ∈ k.nodes
  kind : n.kind = feeder v
  linked : ∃ o ∈ n.outputs, (pin, o) ∈ k.links
  clock : n.kind = .sine → ∃ i ∈ n.inputs, ∃ o, (i, o) ∈ k.links ∧ k.Ticks o

/-- A feeder has been added, with what feeds the feeder itself. -/
structure Readies (d : Draw) (v : String × BindingType) (clock : Option Id) (k : Sketch)
    (n : UiNode) (clock' : Option Id) (k' : Sketch) : Prop where
  kind : n.kind = feeder v
  unshown : Unshown d k'
  known : ∀ o ∈ clock', k'.Ticks o
  isSome : clock'.isSome = (clock.isSome || feeder v = .sine)
  sine : n.kind = .sine → ∃ i ∈ n.inputs, ∃ o, (i, o) ∈ k'.links ∧ k'.Ticks o
  adds : ∃ ts ls, k.Adds (ts ++ [n]) ls k' ∧ (∀ t ∈ ts, t.kind = .time) ∧
    ts.length = wanted clock [v] ∧ ls.length = (if feeder v = .sine then 1 else 0) ∧
      ∀ l ∈ ls, l.1 ∈ n.inputs ∧ n.kind = .sine

theorem sum_ids_times {ts : List UiNode} (h : ∀ t ∈ ts, t.kind = .time) :
    (ts.map (·.kind.ids)).sum = 3 * ts.length := by
  rw [List.map_congr_left fun t ht => by rw [h t ht], List.map_const', List.sum_replicate]
  exact Nat.mul_comm ..

theorem clockOutput_on (h : k.Depicts e) (hclock : ∀ o ∈ clock, k.Ticks o)
    (hroom : k.ids + 3 * (if clock.isSome then 0 else 1) ≤ lastId.toNat) :
    ∃ o e' k' ts, (clockOutput clock).on e = (.ok o, e') ∧ k'.Depicts e' ∧ k'.Ticks o ∧
      k.Adds ts [] k' ∧ (∀ t ∈ ts, t.kind = .time) ∧
        ts.length = if clock.isSome then 0 else 1 := by
  cases clock with
  | some o => exact ⟨o, e, k, [], rfl, h, hclock o rfl, .refl k, by simp, rfl⟩
  | none =>
      obtain ⟨t, s, _, hkind, _, hadd, h'⟩ := h.add .time hroom
      have ht : t ∈ (k.add t).nodes := List.mem_append_right _ (List.mem_singleton_self t)
      obtain ⟨_, o, ho⟩ := UiNode.gives_of_kind (n := t) (v := .float) (by rw [hkind]; rfl)
      have htarget : t.isRenderTarget = false := by
        cases t with
        | renderTarget => cases hkind
        | _ => rfl
      refine ⟨o, _, _, [t], ?_, h', ⟨t, ht, hkind, ho⟩, .node k htarget, by simp [hkind], rfl⟩
      rw [clockOutput, Attempt.on_bind_of_ok (show (add .time).on e = _ from hadd)]
      exact output_on h' ht ho

/-- What is done about a new feeder before it is linked. -/
def prime (c : HostConfig) (clock : Option Id) (kind : UiNodeKind) (id : Id) : Build (Option Id) :=
  match kind with
  | .sine => do
    let time ← clockOutput clock
    link (← input id) time
    pure (some time)
  | .texture => do
    setAsset id c.textures.head?
    pure clock
  | _ => pure clock

theorem feed_eq (c : HostConfig) (clock : Option Id) (b : Binding) : feed c clock b = (do
    let id ← add (feeder (b.name, b.type))
    let clock ← prime c clock (feeder (b.name, b.type)) id
    link b.pin (← output id)
    return clock) := by
  unfold feed feeder prime
  dsimp only
  cases feederKind b.type.kind b.name <;> simp only [bind_assoc, pure_bind]

/-- A sine is given the time. -/
theorem prime_sine (h : k.Depicts e) (hn : n ∈ k.nodes) (hkind : n.kind = .sine)
    (hfree : ∀ i ∈ n.inputs, ∀ o, (i, o) ∉ k.links) (hidle : ∀ l ∈ k.links, l.2 ∉ n.outputs)
    (hclock : ∀ o ∈ clock, k.Ticks o)
    (hroom : k.ids + 3 * (if clock.isSome then 0 else 1) < lastId.toNat) :
    ∃ i o e' k' ts, (prime c clock .sine n.id).on e = (.ok (some o), e') ∧ k'.Depicts e' ∧
      n.inputs = [i] ∧ k'.Ticks o ∧ k.Adds ts [(i, o)] k' ∧ (∀ t ∈ ts, t.kind = .time) ∧
        ts.length = if clock.isSome then 0 else 1 := by
  obtain ⟨o, e₁, k₁, ts, hon, h₁, hticks, hadds, htimes, hlen⟩ :=
    clockOutput_on h hclock (Nat.le_of_lt hroom)
  have hn₁ : n ∈ k₁.nodes := hadds.mem_nodes.2 (Or.inl hn)
  obtain ⟨t, ht, htime, ho⟩ := id hticks
  obtain ⟨id, i, out, rfl⟩ := UiNode.eq_sine_of_kind hkind
  have hinvites : k₁.Invites (.sine id i out) i t o := by
    refine ⟨hn₁, ht, ?_, ho ▸ List.mem_singleton_self o, ⟨.float, .float,
      List.mem_singleton_self _, (UiNode.gives_of_kind (by rw [htime]; rfl)).1, rfl⟩, ?_, ?_⟩
    · rintro rfl
      cases htime
    · intro q hq
      exact hfree i (List.mem_singleton_self i) q (by simpa using hadds.mem_links.1 hq)
    · exact fun l hl => hidle l (by simpa using hadds.mem_links.1 hl)
  have hshader : ∀ d', .draw d' ∈ k₁.nodes → d'.shader ≠ i := by
    rintro d' hd' rfl
    have hsame := h₁.eq_of_pin hd' hn₁ (List.mem_cons_of_mem _ List.mem_cons_self)
      (List.mem_cons_of_mem _ List.mem_cons_self)
    cases hsame
  have hids := hadds.ids
  obtain ⟨edge, e₂, hlink, h₂⟩ := h₁.link hinvites hshader (by
    rw [hids, sum_ids_times htimes, hlen]
    simpa using hroom)
  refine ⟨i, o, e₂, _, ts, ?_, h₂, rfl, hticks.adds (.link k₁ i o),
    (hadds.trans (.link k₁ i o)).perm (by simp), htimes, hlen⟩
  rw [prime, Attempt.on_bind_of_ok hon, Attempt.on_bind_of_ok (input_on h₁ hn₁ rfl),
    Attempt.on_bind_of_ok (link_on hlink)]
  rfl

/-- A texture is given its path. -/
theorem prime_texture (c : HostConfig) (clock : Option Id) (h : k.Depicts e) {n : UiNode}
    {s : Scene} (h' : (k.add n).Depicts (e.enroll n s)) (hkind : n.kind = .texture) :
    ∃ n' e' k', (prime c clock .texture n.id).on (e.enroll n s) = (.ok clock, e') ∧
      k'.Depicts e' ∧ n'.id = n.id ∧ n'.kind = .texture ∧ k.Adds [n'] [] k' := by
  obtain ⟨id, o, path, rfl⟩ :=
    UiNode.eq_asset_of_kind (show _ = (UiNode.asset .texture 0 0 none).kind from hkind)
  obtain ⟨_, _, _, hindices⟩ := h.fresh h'
  obtain ⟨e', hset, _, h''⟩ := h'.assign k.nodes rfl
    (fun p hp heq => hindices p hp (heq ▸ List.mem_singleton_self o))
    (show Scene.resolveAsset _ .texture c.textures.head? = _ from rfl)
  refine ⟨.asset .texture id o c.textures.head?, e', _, ?_, h'', rfl, rfl, ?_⟩
  · exact Attempt.on_bind_of_ok (setAsset_on hset)
  · exact ⟨.refl _, .refl _, fun p hp => List.mem_cons_of_mem _ hp, rfl, rfl, rfl⟩

theorem prime_of_ne {kind : UiNodeKind} (hsine : kind ≠ .sine) (htexture : kind ≠ .texture) :
    prime c clock kind id = pure clock := by
  cases kind with
  | sine => exact absurd rfl hsine
  | texture => exact absurd rfl htexture
  | _ => rfl

theorem Readies.of_ne_sine (hk : Unshown d k) (hclock : ∀ o ∈ clock, k.Ticks o)
    (hkind : n.kind = feeder v) (hsine : feeder v ≠ .sine) (hadds : k.Adds [n] [] k') :
    Readies d v clock k n clock k' where
  kind := hkind
  unshown := hk.adds hadds
    (fun m hm => List.mem_singleton.1 hm ▸ hkind ▸ (gives_feeder v).2.1) (fun _ h => nomatch h)
  known o ho := (hclock o ho).adds hadds
  isSome := by simp [hsine]
  sine h := absurd (hkind.symm.trans h) hsine
  adds := ⟨[], [], hadds, (fun _ h => nomatch h), by simp [wanted, clocks, hsine], by simp [hsine],
    fun _ h => nomatch h⟩

/-- A feeder is added and made ready. -/
theorem readies (h : k.Depicts e) (hk : Unshown d k) (hclock : ∀ o ∈ clock, k.Ticks o)
    (hroom : k.ids + cost clock [v] ≤ lastId.toNat) : ∃ id e₁ n clock' e' k',
      (add (feeder v)).on e = (.ok id, e₁) ∧
        (prime c clock (feeder v) id).on e₁ = (.ok clock', e') ∧ n.id = id ∧ k'.Depicts e' ∧
          Readies d v clock k n clock' k' := by
  obtain ⟨_, hdraw, htarget, _⟩ := gives_feeder v
  have hcost : cost clock [v] = (feeder v).ids + (if feeder v = .sine then 2 else 1) +
      3 * wanted clock [v] := rfl
  obtain ⟨n, s, _, hkind, _, hadd, h₁⟩ := h.add (feeder v) (by omega)
  have hadds : k.Adds [n] [] (k.add n) := .node k (by
    cases n with
    | renderTarget => exact absurd hkind.symm htarget
    | _ => rfl)
  by_cases hsine : feeder v = .sine
  · have hn : n ∈ (k.add n).nodes := List.mem_append_right _ (List.mem_singleton_self n)
    obtain ⟨_, hfree, hidle, _⟩ := h.fresh h₁
    have hwanted : wanted clock [v] = if clock.isSome then 0 else 1 := by
      simp [wanted, clocks, hsine]
    have hroom₁ : (k.add n).ids + 3 * (if clock.isSome then 0 else 1) < lastId.toNat := by
      rw [if_pos hsine] at hcost
      change k.ids + n.kind.ids + _ < _
      rw [hkind, ← hwanted]
      omega
    obtain ⟨i, o, e', k', ts, hon, h', hi, hticks, htakes, htimes, hlen⟩ :=
      prime_sine (c := c) h₁ hn (hkind.trans hsine) hfree hidle
        (fun o ho => (hclock o ho).adds hadds) hroom₁
    have hall : k.Adds (ts ++ [n]) [(i, o)] k' := (hadds.trans htakes).perm List.perm_append_comm
    have hn' : n ∈ k'.nodes := hall.mem_nodes.2 (Or.inr (by simp))
    have hlinked : (i, o) ∈ k'.links := hall.mem_links.2 (Or.inl (List.mem_singleton_self _))
    refine ⟨n.id, _, n, some o, e', k', hadd, hsine ▸ hon, rfl, h', ?_⟩
    refine ⟨hkind, hk.adds hall ?_ ?_, ?_, by simp [hsine],
      fun _ => ⟨i, hi ▸ List.mem_singleton_self i, o, hlinked, hticks⟩,
      ts, _, hall, htimes, hlen.trans hwanted.symm, by simp [hsine], ?_⟩
    · intro m hm
      rcases List.mem_append.1 hm with hm | hm
      · rw [htimes m hm]
        nofun
      · rw [List.mem_singleton.1 hm, hkind]
        exact hdraw
    · intro l hl
      rw [List.mem_singleton.1 hl]
      obtain ⟨t, ht, htime, ho⟩ := hticks
      refine ⟨h'.ne_output (hall.mem_nodes.2 (Or.inl ((hk.draw_iff d).2 rfl))) ht ?_
        (ho ▸ List.mem_singleton_self o), n, hn', hi ▸ List.mem_singleton_self i,
        Or.inr (hkind.trans hsine)⟩
      rw [htime]
      nofun
    · intro q hq
      exact Option.some.inj hq ▸ hticks
    · intro l hl
      rw [List.mem_singleton.1 hl]
      exact ⟨hi ▸ List.mem_singleton_self i, hkind.trans hsine⟩
  by_cases htexture : feeder v = .texture
  · obtain ⟨n', e', k', hon, h', hid, hkind', hadds'⟩ :=
      prime_texture c clock h h₁ (hkind.trans htexture)
    exact ⟨n.id, _, n', clock, e', k', hadd, htexture ▸ hon, hid, h',
      .of_ne_sine hk hclock (hkind'.trans htexture.symm) hsine hadds'⟩
  · refine ⟨n.id, _, n, clock, _, _, hadd, ?_, rfl, h₁, .of_ne_sine hk hclock hkind hsine hadds⟩
    rw [prime_of_ne hsine htexture]
    rfl

/-! ## All variables are fed -/

/-- Inputs of the draw node have been linked to feeders, one for each, with the clock that these
share. -/
structure Fills (d : Draw) (clock : Option Id) (k : Sketch) (bs : List Binding) (k' : Sketch) :
    Prop where
  unshown : Unshown d k'
  ids : k'.ids = k.ids + cost clock (bs.map fun b => (b.name, b.type))
  adds : ∃ ts fs ls, k.Adds (ts ++ fs) ls k' ∧ (∀ t ∈ ts, t.kind = .time) ∧
    ts.length = wanted clock (bs.map fun b => (b.name, b.type)) ∧
      List.Forall₂ (fun b n => Fed k' (b.name, b.type) b.pin n) bs fs ∧
        ∀ l ∈ ls, l.1 ∈ bs.map (·.pin) ∨ ∃ n ∈ fs, n.kind = .sine ∧ l.1 ∈ n.inputs

theorem Fed.adds {pin : Id} {ns : List UiNode} {ls : List (Id × Id)} (h : Fed k v pin n)
    (hadds : k.Adds ns ls k') : Fed k' v pin n where
  mem := hadds.mem_nodes.2 (Or.inl h.mem)
  kind := h.kind
  linked := by
    obtain ⟨o, ho, hlink⟩ := h.linked
    exact ⟨o, ho, hadds.mem_links.2 (Or.inr hlink)⟩
  clock hsine := by
    obtain ⟨i, hi, o, hlink, hticks⟩ := h.clock hsine
    exact ⟨i, hi, o, hadds.mem_links.2 (Or.inr hlink), hticks.adds hadds⟩

theorem Fills.nil (hk : Unshown d k) : Fills d clock k [] k where
  unshown := hk
  ids := by simp [cost, wanted, clocks]
  adds := ⟨[], [], [], .refl k, (fun _ h => nomatch h), by simp [wanted, clocks], .nil,
    fun _ h => nomatch h⟩

theorem Fills.cons (h : Fills d clock k [b] k') (h' : Fills d clock' k' bs k'')
    (hsome : clock'.isSome = (clock.isSome || feeder (b.name, b.type) = .sine)) :
    Fills d clock k (b :: bs) k'' := by
  obtain ⟨ts, fs, ls, hadds, htimes, hlen, hfed, hheads⟩ := h.adds
  obtain ⟨ts', fs', ls', hadds', htimes', hlen', hfed', hheads'⟩ := h'.adds
  refine ⟨h'.unshown, ?_, ts ++ ts', fs ++ fs', ls' ++ ls, ?_, ?_, ?_, ?_, ?_⟩
  · rw [h'.ids, h.ids, Nat.add_assoc]
    have hcost := cost_cons hsome (bs.map fun b => (b.name, b.type))
    exact congrArg (k.ids + ·) hcost.symm
  · refine (hadds.trans hadds').perm ?_
    simp only [List.append_assoc]
    refine List.Perm.append_left ts ?_
    rw [← List.append_assoc, ← List.append_assoc]
    exact List.perm_append_comm.append_right fs'
  · exact fun t ht => (List.mem_append.1 ht).elim (htimes t) (htimes' t)
  · rw [List.length_append, hlen, hlen']
    exact (wanted_cons hsome (bs.map fun b => (b.name, b.type))).symm
  · exact List.rel_append (hfed.imp fun _ _ h => h.adds hadds') hfed'
  · intro l hl
    rcases List.mem_append.1 hl with hl | hl
    · exact (hheads' l hl).imp (List.mem_cons_of_mem _) fun ⟨n, hn, hhead⟩ =>
        ⟨n, List.mem_append_right _ hn, hhead⟩
    · refine (hheads l hl).imp (fun h => ?_) fun ⟨n, hn, hhead⟩ =>
        ⟨n, List.mem_append_left _ hn, hhead⟩
      rw [List.mem_singleton.1 h]
      exact List.mem_cons_self

/-- An input that is not fed stays free. -/
theorem Fills.free (h : Fills d clock k bs k') (h' : k'.Depicts e) {p : Id}
    (hp : p ∈ (UiNode.draw d).inputs) (hne : p ∉ bs.map (·.pin)) (hfree : ∀ o, (p, o) ∉ k.links) :
    ∀ o, (p, o) ∉ k'.links := by
  obtain ⟨ts, fs, ls, hadds, _, _, _, hheads⟩ := h.adds
  intro o hl
  rcases hadds.mem_links.1 hl with hl | hl
  · rcases hheads _ hl with hpin | ⟨n, hn, hsine, hi⟩
    · exact hne hpin
    · have hsame := h'.eq_of_pin (hadds.mem_nodes.2 (Or.inr (List.mem_append_right _ hn)))
        ((h.unshown.draw_iff d).2 rfl) (List.mem_cons_of_mem _ (List.mem_append_left _ hi))
        (List.mem_cons_of_mem _ (List.mem_append_left _ hp))
      rw [hsame] at hsine
      cases hsine
  · exact hfree o hl

/-- A feeder is linked to an input of the draw node. -/
theorem link_feeder (h : k.Depicts e) (hk : Unshown d k) (hb : b ∈ d.bindings)
    (hfree : ∀ o, (b.pin, o) ∉ k.links) (hn : n ∈ k.nodes)
    (hkind : n.kind = feeder (b.name, b.type)) (hroom : k.ids < lastId.toNat) :
    ∃ o edge e', n.outputs = [o] ∧ o ≠ d.output ∧ e.link b.pin o = (.ok edge, e') ∧
      (k.link b.pin o).Depicts e' := by
  obtain ⟨⟨source, hgives, hfeeds⟩, hdraw, _, _⟩ := gives_feeder (b.name, b.type)
  obtain ⟨hoffer, o, ho⟩ := UiNode.gives_of_kind (hkind ▸ hgives)
  have hd : .draw d ∈ k.nodes := (hk.draw_iff d).2 rfl
  have hmem : o ∈ n.outputs := ho ▸ List.mem_singleton_self o
  have hsocket : (b.pin, b.type.kind) ∈ (UiNode.draw d).sockets :=
    List.mem_cons_of_mem _ (List.mem_cons_of_mem _ (List.mem_map_of_mem hb))
  have hinvites : k.Invites (.draw d) b.pin n o := by
    refine ⟨hd, hn, ?_, hmem, ⟨_, source, hsocket, hoffer, hfeeds⟩, hfree, fun l hl ho => ?_⟩
    · rintro rfl
      exact hdraw hkind.symm
    · exact hk.idle l hl (List.mem_singleton.1 ho)
  have hshader : ∀ d', .draw d' ∈ k.nodes → d'.shader ≠ b.pin := by
    intro d' hd' heq
    obtain rfl := (hk.draw_iff d').1 hd'
    exact (List.nodup_cons.1 (h.inputs_nodup hd')).1
      (heq ▸ List.mem_cons_of_mem _ (List.mem_map_of_mem hb))
  obtain ⟨edge, e', hlink, h'⟩ := h.link hinvites hshader hroom
  exact ⟨o, edge, e', ho, h.ne_output hd hn (hkind ▸ hdraw) hmem, hlink, h'⟩

theorem feed_on (h : k.Depicts e) (hk : Unshown d k) (hclock : ∀ o ∈ clock, k.Ticks o)
    (hb : b ∈ d.bindings) (hfree : ∀ o, (b.pin, o) ∉ k.links)
    (hroom : k.ids + cost clock [(b.name, b.type)] ≤ lastId.toNat) : ∃ clock' e' k',
      (feed c clock b).on e = (.ok clock', e') ∧ k'.Depicts e' ∧ Fills d clock k [b] k' ∧
        (∀ o ∈ clock', k'.Ticks o) ∧
          clock'.isSome = (clock.isSome || feeder (b.name, b.type) = .sine) := by
  obtain ⟨id, e₁, n, clock', e₂, k₂, hadd, hprime, rfl, h₂, hready⟩ :=
    readies (c := c) h hk hclock hroom
  obtain ⟨ts, ls, hadds, htimes, hlen, hcount, hheads⟩ := hready.adds
  have hn : n ∈ k₂.nodes := hadds.mem_nodes.2 (Or.inr (by simp))
  have hd : .draw d ∈ k₂.nodes := (hready.unshown.draw_iff d).2 rfl
  have hpin : b.pin ∈ (UiNode.draw d).inputs :=
    List.mem_cons_of_mem _ (List.mem_cons_of_mem _ (List.mem_map_of_mem hb))
  have hfree₂ : ∀ o, (b.pin, o) ∉ k₂.links := by
    intro o hl
    rcases hadds.mem_links.1 hl with hl | hl
    · obtain ⟨hi, hsine⟩ := hheads _ hl
      have hsame := h₂.eq_of_pin hn hd (List.mem_cons_of_mem _ (List.mem_append_left _ hi))
        (List.mem_cons_of_mem _ (List.mem_append_left _ hpin))
      rw [hsame] at hsine
      cases hsine
    · exact hfree o hl
  have hids : k₂.ids + 1 = k.ids + cost clock [(b.name, b.type)] := by
    rw [hadds.ids, List.map_append, List.sum_append, sum_ids_times htimes, hlen, hcount, List.map_singleton,
      List.sum_singleton, hready.kind]
    simp only [cost, idsOf, List.map_singleton, List.sum_singleton]
    split <;> omega
  obtain ⟨o, edge, e', ho, hne, hlink, h'⟩ := link_feeder h₂ hready.unshown hb hfree₂ hn hready.kind
    (by omega)
  have hall := hadds.trans (.link k₂ b.pin o)
  rw [List.append_nil, List.singleton_append] at hall
  have hlinked : (b.pin, o) ∈ (k₂.link b.pin o).links := List.mem_cons_self
  refine ⟨clock', e', k₂.link b.pin o, ?_, h', ⟨hready.unshown.link hpin hne, hids, ts, [n], _,
    hall, htimes, hlen, ?_, ?_⟩, fun q hq => (hready.known q hq).adds (.link k₂ b.pin o),
    hready.isSome⟩
  · rw [feed_eq, Attempt.on_bind_of_ok hadd, Attempt.on_bind_of_ok hprime,
      Attempt.on_bind_of_ok (output_on h₂ hn ho), Attempt.on_bind_of_ok (link_on hlink)]
    rfl
  · refine .cons ⟨hn, hready.kind, ⟨o, ho ▸ List.mem_singleton_self o, hlinked⟩, fun hsine => ?_⟩
      .nil
    obtain ⟨i, hi, q, hl, hticks⟩ := hready.sine hsine
    exact ⟨i, hi, q, List.mem_cons_of_mem _ hl, hticks.adds (.link k₂ b.pin o)⟩
  · refine List.forall_mem_cons.2 ⟨Or.inl (List.mem_singleton_self _), fun l hl => ?_⟩
    exact Or.inr ⟨n, List.mem_singleton_self n, (hheads l hl).2, (hheads l hl).1⟩

/-- One input after another is fed. -/
theorem foldlM_feed_on (h : k.Depicts e) (hk : Unshown d k) (hclock : ∀ o ∈ clock, k.Ticks o)
    (hbs : bs ⊆ d.bindings) (hnodup : (bs.map (·.pin)).Nodup)
    (hfree : ∀ b ∈ bs, ∀ o, (b.pin, o) ∉ k.links)
    (hroom : k.ids + cost clock (bs.map fun b => (b.name, b.type)) ≤ lastId.toNat) :
    ∃ clock' e' k', (bs.foldlM (feed c) clock).on e = (.ok clock', e') ∧ k'.Depicts e' ∧
      Fills d clock k bs k' := by
  induction bs generalizing k e clock with
  | nil => exact ⟨clock, e, k, rfl, h, .nil hk⟩
  | cons b bs ih =>
      obtain ⟨hb, hbs⟩ := List.cons_subset.1 hbs
      rw [List.map_cons, List.nodup_cons] at hnodup
      have hcost (clock' : Option Id)
          (hsome : clock'.isSome = (clock.isSome || feeder (b.name, b.type) = .sine)) :=
        cost_cons hsome (bs.map fun b => (b.name, b.type))
      obtain ⟨clock', e', k', hon, h', hfills, hknown, hsome⟩ := feed_on (c := c) h hk hclock hb
        (hfree b List.mem_cons_self) (by
          rw [List.map_cons, hcost (if clock.isSome || feeder (b.name, b.type) = .sine then
            some 0 else none) (by split <;> simp_all)] at hroom
          omega)
      have hids := hfills.ids
      rw [List.map_cons, hcost clock' hsome] at hroom
      obtain ⟨clock'', e'', k'', hons, h'', hrest⟩ := ih h' hfills.unshown hknown hbs hnodup.2
        (fun b' hb' => hfills.free h' (List.mem_cons_of_mem _ (List.mem_cons_of_mem _
          (List.mem_map_of_mem (hbs hb')))) (fun hmem => hnodup.1 (by
            rw [List.map_singleton, List.mem_singleton] at hmem
            exact hmem ▸ List.mem_map_of_mem hb')) (hfree b' (List.mem_cons_of_mem _ hb')))
        (by
          rw [List.map_singleton] at hids
          omega)
      refine ⟨clock'', e'', k'', ?_, h'', hfills.cons hrest hsome⟩
      rw [List.foldlM_cons, Attempt.on_bind_of_ok hon]
      exact hons

end Demo

end DrawGraph
