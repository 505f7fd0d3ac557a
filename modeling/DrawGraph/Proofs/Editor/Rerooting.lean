import DrawGraph.Proofs.Editor.Root

/-!
# Roots that come back

An editor that loads what was saved has the root that was saved. Only if there was none, the first
render target whose pin is still there becomes the root. So no render target that fits the graph may
be passed over, and they have to be found in their order.
-/

namespace DrawGraph

open UiNode

namespace Document

variable {g : Graph} {values : ValueStore} {n : UiNode} {nodes kept found : List UiNode}

/-- A render target that fits the graph is found as it was written. -/
theorem Recovers.mem_kept_iff (h : Recovers g values [] nodes kept found)
    (hnodup : (nodes.map UiNode.id).Nodup) (hn : n ∈ nodes) (htarget : n.isRenderTarget) :
    n ∈ kept ↔ resolves g n := by
  cases n with
  | renderTarget id input ready =>
      refine ⟨fun hkept => ?_, h.complete hnodup _ hn trivial⟩
      exact (resolves_of_essence rfl).symm.trans (h.fits _ hkept)
  | binary | sine | time | constant | asset | primitive | camera | transform | draw => cases htarget

theorem Recovers.filter_kept (h : Recovers g values [] nodes kept found)
    (hnodup : (nodes.map UiNode.id).Nodup) : kept.filter UiNode.isRenderTarget =
      nodes.filter fun n => n.isRenderTarget && resolves g n := by
  have hfits : kept.filter UiNode.isRenderTarget =
      kept.filter fun n => n.isRenderTarget && resolves g n := by
    refine List.filter_congr fun n hn => ?_
    cases htarget : n.isRenderTarget with
    | false => rfl
    | true =>
        rw [Bool.true_and, (h.mem_kept_iff hnodup (h.sublist.subset hn) htarget).1 hn]
  have hsub := h.sublist.filter fun n => n.isRenderTarget && resolves g n
  have hnodes : (nodes.filter fun n => n.isRenderTarget && resolves g n).Nodup :=
    hnodup.of_map.filter _
  rw [hfits]
  -- both have the same members, so the sublist leaves none out
  refine hsub.eq_of_length (List.Perm.length_eq ?_)
  rw [List.perm_ext_iff_of_nodup (hnodes.sublist hsub) hnodes]
  refine fun n => ⟨fun hn => hsub.subset hn, fun hn => ?_⟩
  obtain ⟨hn, hpicked⟩ := List.mem_filter.1 hn
  obtain ⟨htarget, hresolves⟩ := Bool.and_eq_true_iff.1 hpicked
  exact List.mem_filter.2 ⟨(h.mem_kept_iff hnodup hn htarget).2 hresolves, hpicked⟩

/-- The render targets that fit the graph are found again, in their order, and no others. -/
theorem Recovers.renderTargets (h : Recovers g values [] nodes kept found)
    (hnodup : (nodes.map UiNode.id).Nodup) :
    (found.filter UiNode.isRenderTarget).map UiNode.id =
      (nodes.filter fun n => n.isRenderTarget && resolves g n).map UiNode.id := by
  have hcounted : UiNode.isRenderTarget ∘ counted values = UiNode.isRenderTarget := by
    funext n
    cases n <;> rfl
  have hid : UiNode.id ∘ counted values = UiNode.id := funext (id_counted values)
  calc (found.filter UiNode.isRenderTarget).map UiNode.id
    _ = ((kept.map (counted values)).filter UiNode.isRenderTarget).map UiNode.id :=
      Editor.ids_eq_of_essence isRenderTarget_essence h.essence
    _ = (kept.filter UiNode.isRenderTarget).map UiNode.id := by
      rw [List.filter_map, List.map_map, hcounted, hid]
    _ = _ := by rw [h.filter_kept hnodup]

end Document

namespace Editor

variable {e : Editor}

/-- The first render target whose pin is still there. -/
def firstTarget (e : Editor) : Option Id :=
  (e.nodes.find? fun n => n.isRenderTarget && n.pins.all e.graph.hasNode).map UiNode.id

/-- A UI node fits the graph as long as its pins are there. -/
theorem Rooted.resolves_eq (h : e.Rooted) {n : UiNode} (hn : n ∈ e.nodes) :
    Document.resolves e.graph n = n.pins.all e.graph.hasNode := by
  have hid : (e.graph.node? n.id).any (fun m => !m.direction.isPin) = true := by
    obtain ⟨m, hm, hdir⟩ := Option.map_eq_some_iff.1 (h.identity n hn)
    rw [hm, Option.any_some, hdir]
    rfl
  rw [Document.resolves, hid, Bool.true_and]
  rw [Bool.eq_iff_iff, List.all_eq_true, List.all_eq_true]
  refine forall₂_congr fun p hp => ?_
  rw [Graph.hasNode_eq]
  cases hnode : e.graph.node? p with
  | none => exact Iff.rfl
  | some m =>
      have hpin := (h.pin n hn p hp).2 m.direction (congrArg (Option.map _) hnode)
      exact iff_of_true hpin rfl

theorem find?_ofDocument (d : Document) (services : Services) (settings : EvalSettings) :
    ((ofDocument d services settings).nodes.find? UiNode.isRenderTarget).map UiNode.id =
      ((d.nodes.filter UiNode.isRenderTarget).map UiNode.id).head? := by
  have hessence := essence_loadNodes d.nodes { graph := d.graph, services }
  rw [← ids_eq_of_essence isRenderTarget_essence hessence, List.head?_map, List.head?_filter]
  rfl

/-- What an editor saved is loaded, unless there are too many inputs to count. A root that is a node
comes back; without one the first render target is found. -/
theorem Rooted.reloads (h : e.Rooted) (e₀ : Editor) :
    (∃ err, e₀.load e.save = (.error err, e₀) ∧
        ∃ n ∈ e.nodes, UInt32.size ≤ n.bindings.length) ∨
      ∃ e', e₀.load e.save = (.ok (), e') ∧
        e'.root = (e.root.filter e.graph.hasNode).or e.firstTarget := by
  have hfew := length_nodes_lt h.nodup fun _ hn => h.id_lt hn
  have hparse := Document.parse_render_recovers (d := e.document) e.values h.consistent hfew
  rw [Editor.load, save]
  rcases hparse with ⟨err, hparse, hlarge⟩ | ⟨kept, found, hfound, hparse⟩
  · rw [hparse]
    exact Or.inl ⟨_, rfl, hlarge⟩
  · rw [hparse]
    refine Or.inr ⟨_, rfl, ?_⟩
    have hpicked : (e.nodes.filter fun n => n.isRenderTarget && Document.resolves e.graph n) =
        e.nodes.filter fun n => n.isRenderTarget && n.pins.all e.graph.hasNode :=
      List.filter_congr fun n hn => by rw [h.resolves_eq hn]
    refine congrArg (Option.or _) ?_
    calc _
      _ = ((found.filter UiNode.isRenderTarget).map UiNode.id).head? :=
        find?_ofDocument ⟨e.graph.rebuild, e.root.filter e.graph.hasNode, found⟩ _ e₀.settings
      _ = ((e.nodes.filter fun n => n.isRenderTarget && Document.resolves e.graph n).map
          UiNode.id).head? := congrArg List.head? (hfound.renderTargets h.nodup)
      _ = e.firstTarget := by rw [hpicked, List.head?_map, List.head?_filter, firstTarget]

/-- Loading what was saved keeps the root, be it none or a node; only that without a root the first
render target becomes it. -/
theorem Opened.root_load_save (h : Opened e) (hroot : ∀ r, e.root = some r → e.graph.hasNode r)
    (e₀ : Editor) :
    (∃ err, e₀.load e.save = (.error err, e₀) ∧
        ∃ n ∈ e.nodes, UInt32.size ≤ n.bindings.length) ∨
      ∃ e', e₀.load e.save = (.ok (), e') ∧ e'.root = e.root.or e.firstTarget := by
  have hfilter : e.root.filter e.graph.hasNode = e.root := by
    cases hr : e.root with
    | none => rfl
    | some r => rw [Option.filter_some, if_pos (hroot r hr)]
  rw [← hfilter]
  exact h.rooted.reloads e₀

/-- The pin of a number is the root, beside a render target. -/
def rerooted : Editor :=
  asked {} {} [.operate (.addNode .renderTarget), .operate (.addNode .scalar),
    .operate (.setRoot (some 4))]

theorem root_load_save_rerooted : Opened rerooted ∧
    (∀ r, rerooted.root = some r → rerooted.graph.hasNode r) ∧
      ∃ e', rerooted.load rerooted.save = (.ok (), e') ∧ e'.root = some 4 := by
  have hopened : Opened rerooted := opened_asked _
  have hroot : rerooted.root = some 4 := by decide +kernel
  have hlive : ∀ r, rerooted.root = some r → rerooted.graph.hasNode r := by
    intro r hr
    cases hroot.symm.trans hr
    decide +kernel
  refine ⟨hopened, hlive, ?_⟩
  rcases hopened.root_load_save hlive rerooted with ⟨_, _, n, hn, hlarge⟩ | ⟨e', hload, he'⟩
  · have hfew : ∀ n ∈ rerooted.nodes, n.bindings.length < UInt32.size := by decide +kernel
    exact absurd (hfew n hn) (Nat.not_lt.2 hlarge)
  · rw [hroot, Option.some_or] at he'
    exact ⟨e', hload, he'⟩

/-- A render target was added, and then the root was taken away. -/
def unrooted : Editor :=
  asked {} {} [.operate (.addNode .renderTarget), .operate (.setRoot none)]

/-- The render target becomes the root. -/
theorem root_load_save_unrooted : Opened unrooted ∧ unrooted.root = none ∧
    (unrooted.load unrooted.save).2.root = some 0 := by
  have hopened : Opened unrooted := opened_asked _
  have hroot : unrooted.root = none := by decide +kernel
  refine ⟨hopened, hroot, ?_⟩
  rcases hopened.rooted.reloads unrooted with ⟨_, _, n, hn, hlarge⟩ | ⟨e', hload, he'⟩
  · have hfew : ∀ n ∈ unrooted.nodes, n.bindings.length < UInt32.size := by decide +kernel
    exact absurd (hfew n hn) (Nat.not_lt.2 hlarge)
  · have htarget : unrooted.firstTarget = some 0 := by decide +kernel
    rw [hload, he', hroot, htarget]
    rfl

end Editor

end DrawGraph
