import DrawGraph.Editor.Assign
import DrawGraph.Proofs.Editor.Footprint
import DrawGraph.Proofs.Editor.Joining
import DrawGraph.Proofs.UiNode.Growth

/-!
# Graphs that are drawn step by step

A sketch tells what there is in an editor: the UI nodes in their order, which inputs are linked to
which outputs, the indices that some outputs give, and how many ids are used up. Each operation that
draws more is followed by the sketch, and it succeeds as long as ids are left.
-/

namespace DrawGraph

open Scene DrawGraph.Graph

namespace Editor

/-- What is known of an editor. -/
structure Sketch where
  nodes : List UiNode := []
  /-- Inputs, each with the output that is linked to it. -/
  links : List (Id × Id) := []
  /-- Outputs with indices in their boxes. -/
  indices : List (Id × Int32) := []
  root : Option Id := none
  ids : Nat := 0
  shaders : ShaderLibrary
  settings : EvalSettings

/-- One UI node is put in the place of another. -/
theorem map_replace {pre post : List UiNode} {n n' : UiNode}
    (hnodup : ((pre ++ n :: post).map UiNode.id).Nodup) (hid : n'.id = n.id) :
    (pre ++ n :: post).map (fun m => if m.id = n'.id then n' else m) = pre ++ n' :: post := by
  rw [List.map_append, List.map_cons, List.nodup_append] at hnodup
  obtain ⟨_, hpost, hpre⟩ := hnodup
  have hne : n.id ∉ post.map UiNode.id := (List.nodup_cons.1 hpost).1
  rw [List.map_append, List.map_cons, if_pos hid.symm]
  have hkeep {ms : List UiNode} (hms : ∀ m ∈ ms, m.id ≠ n.id) :
      ms.map (fun m => if m.id = n'.id then n' else m) = ms := by
    refine (List.map_congr_left fun m hm => ?_).trans (List.map_id ms)
    rw [hid, if_neg (hms m hm)]
    rfl
  rw [hkeep fun m hm heq => hpre _ (List.mem_map_of_mem hm) _ List.mem_cons_self heq,
    hkeep fun m hm heq => hne (heq ▸ List.mem_map_of_mem hm)]

namespace Sketch

variable {k : Sketch} {e : Editor} {m n : UiNode} {i o p : Id}

def add (k : Sketch) (n : UiNode) : Sketch :=
  { k with
    nodes := k.nodes ++ [n]
    root := if n.isRenderTarget then k.root.or (some n.id) else k.root
    ids := k.ids + n.kind.ids }

def link (k : Sketch) (input output : Id) : Sketch :=
  { k with links := (input, output) :: k.links, ids := k.ids + 1 }

/-- The variables that a shader declares. -/
def vars (k : Sketch) (shader : Int32) : List (String × BindingType) :=
  Draw.reflected { services := { shaders := k.shaders } } shader

/-- The sketch tells the truth, and about links all of it. -/
structure Depicts (k : Sketch) (e : Editor) : Prop where
  tracked : Tracked e
  nodes : e.nodes = k.nodes
  links : ∀ i o, (i, o) ∈ k.links ↔ (∃ n ∈ e.nodes, i ∈ n.inputs) ∧ o ∈ e.graph.neighbors i
  indices : ∀ p ∈ k.indices, e.Indicates p.1 p.2
  root : e.root = k.root
  ids : e.graph.nextId.toNat = k.ids
  shaders : e.scene.services.shaders = k.shaders
  settings : e.settings = k.settings

/-- An input of one UI node and an output of another that goes with it may be linked: the input is
free, and nobody takes what the first UI node gives. -/
structure Invites (k : Sketch) (m : UiNode) (i : Id) (n : UiNode) (o : Id) : Prop where
  consumer : m ∈ k.nodes
  producer : n ∈ k.nodes
  apart : m ≠ n
  output : o ∈ n.outputs
  kinds : ∃ kind source, (i, kind) ∈ m.sockets ∧ n.offer = .exactly source ∧ source.canFeed kind
  free : ∀ o, (i, o) ∉ k.links
  idle : ∀ l ∈ k.links, l.2 ∉ m.outputs

/-- An input is one that there was before, or one that was just made. -/
theorem exists_input_bud {d : Draw} {pre post : List UiNode} {bs : List Binding} {index : Int32}
    (hbare : d.bindings = []) (j : Id) :
    (∃ m ∈ pre ++ UiNode.draw { d with bindings := bs, bound := index } :: post, j ∈ m.inputs) ↔
      (∃ m ∈ pre ++ UiNode.draw d :: post, j ∈ m.inputs) ∨ j ∈ bs.map (·.pin) := by
  have hinputs : j ∈ (UiNode.draw { d with bindings := bs, bound := index }).inputs ↔
      j ∈ (UiNode.draw d).inputs ∨ j ∈ bs.map (·.pin) := by
    simp [UiNode.inputs, hbare, or_assoc]
  simp only [List.mem_append, List.mem_cons, or_and_right, exists_or, exists_eq_left, hinputs]
  rw [or_right_comm (a := j ∈ (UiNode.draw d).inputs), ← or_assoc]

namespace Depicts

theorem new (services : Services) (settings : EvalSettings) :
    ({ shaders := services.shaders, settings } : Sketch).Depicts (.new services settings) where
  tracked := .new services settings
  nodes := rfl
  links _ _ := ⟨(fun h => nomatch h), fun ⟨⟨_, h, _⟩, _⟩ => nomatch h⟩
  indices _ h := nomatch h
  root := rfl
  ids := rfl
  shaders := rfl
  settings := rfl

variable (h : k.Depicts e)

include h

theorem sound : ∃ w, e.Sound w := h.tracked.reached.sound

theorem tables : e.WellFormed := h.sound.choose_spec.tables

theorem reflected (shader : Int32) : Draw.reflected e.scene shader = k.vars shader :=
  Draw.reflected_of_shaders h.shaders shader

theorem eq_of_pin (hm : m ∈ k.nodes) (hn : n ∈ k.nodes) (hp : p ∈ m.id :: m.pins)
    (hp' : p ∈ n.id :: n.pins) : m = n := by
  obtain ⟨w, hs⟩ := h.sound
  rw [← h.nodes] at hm hn
  obtain ⟨r, hr, hhome⟩ := (hs.casts.plays m hm).home_eq hp
  obtain ⟨r', hr', hhome'⟩ := (hs.casts.plays n hn).home_eq hp'
  obtain rfl := Option.some.inj (hr.symm.trans hr')
  exact hs.casts.eq_of_id hm hn (hhome.symm.trans hhome')

theorem hasNode (hn : n ∈ k.nodes) (hp : p ∈ n.id :: n.pins) : e.graph.hasNode p :=
  (h.tables.hasNode_iff p).2 ⟨n, h.nodes ▸ hn, List.mem_cons.1 hp⟩

theorem node? (hn : n ∈ k.nodes) : e.node? n.id = some n :=
  UiNode.find?_id h.sound.choose_spec.casts.nodup (h.nodes ▸ hn)

theorem inputs_nodup (hn : n ∈ k.nodes) : n.inputs.Nodup := by
  obtain ⟨w, hs⟩ := h.sound
  exact (hs.wired.identity_belongs (hs.casts.plays n (h.nodes ▸ hn)).identity).1

/-- Where a link is, there is no other. -/
theorem linked (hl : (i, o) ∈ k.links) : e.graph.neighbors i = [o] ∧
    ∃ m ∈ k.nodes, ∃ n ∈ k.nodes, i ∈ m.inputs ∧ o ∈ n.outputs ∧ m.id ≠ n.id := by
  obtain ⟨⟨m, hm, hi⟩, ho⟩ := (h.links i o).1 hl
  rcases h.tables.edgesFrom_input m hm i hi with hnil | ⟨_, o', _, hone, n, hn, hne, ho'⟩
  · have hperm := h.tables.edges_perm i
    rw [hnil] at hperm
    rw [hperm.symm.eq_nil] at ho
    cases ho
  · rw [hone, List.mem_singleton] at ho
    subst ho
    rw [h.nodes] at hm hn
    exact ⟨hone, m, hm, n, hn, hi, ho', hne.symm⟩

theorem unlinked (hn : n ∈ k.nodes) (hi : i ∈ n.inputs) (hfree : ∀ o, (i, o) ∉ k.links) :
    e.graph.neighbors i = [] :=
  List.eq_nil_iff_forall_not_mem.2 fun o ho =>
    hfree o ((h.links i o).2 ⟨⟨n, h.nodes ▸ hn, hi⟩, ho⟩)

/-! ## UI nodes are added -/

theorem lt_nextId (hm : m ∈ e.nodes) (hp : p ∈ m.id :: m.pins) : p < e.graph.nextId :=
  h.sound.choose_spec.wired.consistent.node_lt p (h.hasNode (h.nodes ▸ hm) hp)

/-- A UI node that is added brings no links. -/
theorem links_enroll {s : Scene} (hstarted : Started e.scene n.id n.pins s)
    (htracked : Tracked (e.enroll n s)) (i o : Id) :
    (i, o) ∈ (k.add n).links ↔
      (∃ m ∈ (e.enroll n s).nodes, i ∈ m.inputs) ∧ o ∈ (e.enroll n s).graph.neighbors i := by
  have hsame {m : UiNode} (hm : m ∈ e.nodes) (hi : i ∈ m.inputs) :
      s.graph.neighbors i = e.graph.neighbors i :=
    hstarted.grows.neighbors i
      (h.lt_nextId hm (List.mem_cons_of_mem _ (List.mem_append_left _ hi)))
  rw [show (k.add n).links = k.links from rfl, h.links]
  constructor
  · rintro ⟨⟨m, hm, hi⟩, ho⟩
    exact ⟨⟨m, List.mem_append_left _ hm, hi⟩, hsame hm hi ▸ ho⟩
  · rintro ⟨⟨m, hm, hi⟩, ho⟩
    rcases List.mem_append.1 hm with hold | hnew
    · exact ⟨⟨m, hold, hi⟩, hsame hold hi ▸ ho⟩
    -- a link to a pin is never to an identity
    · obtain rfl := List.mem_singleton.1 hnew
      have hself := hstarted.bare i (List.mem_append_left _ hi) o ho
      obtain ⟨w', hs'⟩ := htracked.reached.sound
      have hplays := hs'.casts.plays m hm
      obtain ⟨_, _, hrole⟩ := hplays.input hi
      rcases hs'.wired.aims i _ hrole with hnil | ⟨o', _, _, hone, ho', _⟩
      · exact absurd (hnil ▸ ho : o ∈ []) List.not_mem_nil
      · have hoo : o = o' := List.mem_singleton.1 (hone ▸ ho)
        rw [← hoo, hself, hplays.identity] at ho'
        cases ho'

theorem add (kind : UiNodeKind) (hroom : k.ids + kind.ids ≤ lastId.toNat) :
    ∃ n s, (UiNode.create kind).on e.scene = (.ok n, s) ∧ n.kind = kind ∧
      (∀ d, n = .draw d → d.bindings = []) ∧ e.addNode kind = (.ok n.id, e.enroll n s) ∧
        (k.add n).Depicts (e.enroll n s) := by
  obtain ⟨w, hs⟩ := h.sound
  have hc := hs.wired.consistent
  obtain ⟨n, s, hx, hstarted⟩ := UiNode.create_of_room hc (h.ids ▸ hroom)
  have hkind : n.kind = kind := UiNode.kind_create kind _ _ _ hx
  have hbare (d : Draw) (hd : n = .draw d) : d.bindings = [] :=
    (UiNode.returns_create kind _ _ _ hx d hd).1
  have hquiet : s.graph.outbox = [] := by
    have hpreserves := UiNode.preserves_create kind e.scene
    rw [hx] at hpreserves
    exact hpreserves.trans h.tracked.reached.outbox
  have hadd : e.addNode kind = (.ok n.id, e.enroll n s) := by
    rw [addNode, hx]
    exact congrArg (Prod.mk _) (drain_of_outbox (e := e.enroll n s) hquiet)
  have hserved : (Operation.addNode kind).Served e := served_addNode (by rw [hadd]; rfl)
  have htracked : Tracked (e.enroll n s) := by
    have hstep := h.tracked.step (.addNode kind) hserved fun _ heq => by cases heq
    rwa [Operation.apply, hadd] at hstep
  have hshaders : s.services.shaders = e.scene.services.shaders := by
    have hmoves : Moves (fun _ => True) (fun _ => False) e.scene
        ((UiNode.create kind).on e.scene).2 := UiNode.moves_create kind e.scene
    rw [hx] at hmoves
    exact Moves.shaders hmoves
  refine ⟨n, s, hx, hkind, hbare, hadd, htracked, ?_, h.links_enroll hstarted htracked,
    fun p hp => ?_, ?_, ?_, ?_, h.settings⟩
  · exact congrArg (· ++ [n]) h.nodes
  · obtain ⟨⟨m, hm, hout, hres⟩, hbox⟩ := h.indices p hp
    refine ⟨⟨m, List.mem_append_left _ hm, hout, hres⟩, ?_⟩
    have hold := hstarted.grows.box p.1
      (h.lt_nextId hm (List.mem_cons_of_mem _ (List.mem_append_right _ hout)))
    exact hold.trans hbox
  · change (if n.isRenderTarget then e.root.or (some n.id) else e.root) = _
    rw [h.root]
    rfl
  · change s.graph.nextId.toNat = k.ids + n.kind.ids
    rw [hstarted.count, ← UiNode.ids_kind hbare]
    exact congrArg (· + _) h.ids
  · exact hshaders.trans h.shaders

/-- What is new has no part in the links that there were. -/
theorem fresh {e' : Editor} (h' : (k.add n).Depicts e') :
    n ∉ k.nodes ∧ (∀ i ∈ n.inputs, ∀ o, (i, o) ∉ k.links) ∧ (∀ l ∈ k.links, l.2 ∉ n.outputs) ∧
      ∀ p ∈ k.indices, p.1 ∉ n.outputs := by
  have hnew : n ∉ k.nodes := fun hn => by
    have hnodup := h'.sound.choose_spec.casts.nodup
    rw [h'.nodes, Sketch.add, List.map_append, List.nodup_append] at hnodup
    exact hnodup.2.2 _ (List.mem_map_of_mem hn) _ (List.mem_singleton_self _) rfl
  have hmem : n ∈ (k.add n).nodes := List.mem_append_right _ (List.mem_singleton_self n)
  have hold {m : UiNode} (hm : m ∈ k.nodes) {p : Id} (hp : p ∈ m.pins) : p ∉ n.pins :=
    fun hp' => hnew (h'.eq_of_pin (List.mem_append_left _ hm) hmem
      (List.mem_cons_of_mem _ hp) (List.mem_cons_of_mem _ hp') ▸ hm)
  refine ⟨hnew, fun i hi o hl => ?_, fun l hl ho => ?_, fun p hp ho => ?_⟩
  · obtain ⟨_, m, hm, _, _, him, _⟩ := h.linked hl
    exact hold hm (List.mem_append_left _ him) (List.mem_append_left _ hi)
  · obtain ⟨_, _, _, m, hm, _, hom, _⟩ := h.linked hl
    exact hold hm (List.mem_append_right _ hom) (List.mem_append_right _ ho)
  · obtain ⟨⟨m, hm, hom, _⟩, _⟩ := h.indices p hp
    exact hold (h.nodes ▸ hm) (List.mem_append_right _ hom) (List.mem_append_right _ ho)

/-! ## The newest UI node is changed -/

/-- A UI node with the same pins is put in the place of the last one. -/
theorem alter {ns : List UiNode} {n' : UiNode} {s : Scene} {indices : List (Id × Int32)}
    (hnodes : k.nodes = ns ++ [n]) (hid : n'.id = n.id) (hinputs : n'.inputs = n.inputs)
    (hneighbors : ∀ j, s.graph.neighbors j = e.graph.neighbors j)
    (hnext : s.graph.nextId = e.graph.nextId)
    (hshaders : s.services.shaders = e.scene.services.shaders)
    (htracked : Tracked (({ e with scene := s } : Editor).replace n'))
    (hindices : ∀ p ∈ indices, (∃ m ∈ ns ++ [n'], p.1 ∈ m.outputs ∧ p.1 ∉ m.results) ∧
      s.values.get? p.1 = some (.int p.2)) :
    ({ k with nodes := ns ++ [n'], indices } : Sketch).Depicts
      (({ e with scene := s } : Editor).replace n') := by
  have hreplace : (({ e with scene := s } : Editor).replace n').nodes = ns ++ [n'] := by
    have hnodup := h.sound.choose_spec.casts.nodup
    change e.nodes.map _ = _
    rw [h.nodes, hnodes] at hnodup ⊢
    exact map_replace hnodup hid
  refine ⟨htracked, hreplace, fun i o => ?_, fun p hp => ?_, h.root, ?_,
    hshaders.trans h.shaders, h.settings⟩
  · have hmem : (∃ m ∈ ns ++ [n'], i ∈ m.inputs) ↔ ∃ m ∈ e.nodes, i ∈ m.inputs := by
      simp only [h.nodes, hnodes, List.mem_append, List.mem_singleton, or_and_right, exists_or,
        exists_eq_left, hinputs]
    change (i, o) ∈ k.links ↔ (∃ m ∈ (({ e with scene := s } : Editor).replace n').nodes,
      i ∈ m.inputs) ∧ o ∈ s.graph.neighbors i
    rw [hreplace, hmem, hneighbors, h.links]
  · rw [Indicates, hreplace]
    exact hindices p hp
  · exact (congrArg UInt32.toNat hnext).trans h.ids

/-- The asset node added last is given a path. -/
theorem assign (ns : List UiNode) {kind : AssetKind} {id : Id} {old path : Option String}
    {index : Int32} {s : Scene} (hnodes : k.nodes = ns ++ [.asset kind id o old])
    (hfree : ∀ p ∈ k.indices, p.1 ≠ o) (hresolve : e.scene.resolveAsset kind path = (index, s)) :
    ∃ e', e.setAsset id path = (.ok index, e') ∧ e'.scene.services = s.services ∧
      ({ k with
        nodes := ns ++ [UiNode.asset kind id o path]
        indices := (o, index) :: k.indices } : Sketch).Depicts e' := by
  have hmem : .asset kind id o old ∈ k.nodes :=
    hnodes ▸ List.mem_append_right _ (List.mem_singleton_self _)
  obtain ⟨hgraph, hvalues⟩ : s.graph = e.scene.graph ∧ s.values = e.scene.values := by
    have hsame := graph_resolveAsset e.scene kind path
    rwa [hresolve] at hsame
  have hset : e.setAsset id path = (.ok index,
      ({ e with scene := s.write o (.int index) } : Editor).replace (.asset kind id o path)) := by
    have hfind : e.node? id = some (.asset kind id o old) := h.node? hmem
    simp only [setAsset, withNode, hfind, hresolve]
    refine congrArg (Prod.mk _) (drain_of_outbox ?_)
    change (s.write o (.int index)).graph.outbox = []
    rw [outbox_write, hgraph]
    exact h.tracked.reached.outbox
  have htracked := h.tracked.step (.setAsset id path) trivial fun _ heq => by cases heq
  rw [Operation.apply, hset] at htracked
  refine ⟨_, hset, services_write .., h.alter hnodes rfl rfl (fun j => ?_) ?_ ?_ htracked ?_⟩
  · rw [neighbors_write, hgraph]
    rfl
  · rw [nextId_write, hgraph]
    rfl
  · rw [services_write]
    have hmoves : Moves (fun _ => False) (fun _ => False) e.scene s := moves_resolveAsset hresolve
    exact Moves.shaders hmoves
  · refine List.forall_mem_cons.2 ⟨⟨⟨_, List.mem_append_right _ (List.mem_singleton_self _),
      List.mem_singleton_self o, List.not_mem_nil⟩, ?_⟩, fun p hp => ?_⟩
    · rw [get?_write, if_pos rfl]
    · obtain ⟨⟨m, hm, ho, hres⟩, hbox⟩ := h.indices p hp
      have hne := hfree p hp
      rw [h.nodes, hnodes] at hm
      rcases List.mem_append.1 hm with hm | hm
      · refine ⟨⟨m, List.mem_append_left _ hm, ho, hres⟩, ?_⟩
        rw [get?_write, if_neg hne, hvalues]
        exact hbox
      · rw [List.mem_singleton.1 hm] at ho
        exact absurd (List.mem_singleton.1 ho) hne

/-- What an asset or a primitive gives is noted. -/
theorem note {index : Int32} (ho : e.Indicates o index) :
    ({ k with indices := (o, index) :: k.indices } : Sketch).Depicts e :=
  { h with indices := List.forall_mem_cons.2 ⟨ho, h.indices⟩ }

/-- The draw node added last is given a color. -/
theorem setColor (ns : List UiNode) {d : Draw} (hnodes : k.nodes = ns ++ [.draw d]) (color : Vec3) :
    ∃ e', e.setColor d.id color = (.ok (), e') ∧
      ({ k with nodes := ns ++ [UiNode.draw { d with color }] } : Sketch).Depicts e' := by
  have hmem : .draw d ∈ k.nodes := hnodes ▸ List.mem_append_right _ (List.mem_singleton_self _)
  have hset : e.setColor d.id color = (.ok (), e.replace (.draw { d with color })) := by
    have hfind : e.node? d.id = some (.draw d) := h.node? hmem
    simp only [Editor.setColor, withNode, hfind]
    exact congrArg (Prod.mk _) (drain_of_outbox h.tracked.reached.outbox)
  have htracked := h.tracked.step (.setColor d.id color) trivial fun _ heq => by cases heq
  rw [Operation.apply, hset] at htracked
  refine ⟨_, hset, h.alter hnodes rfl rfl (fun _ => rfl) rfl rfl htracked fun p hp => ?_⟩
  obtain ⟨⟨m, hm, ho, hres⟩, hbox⟩ := h.indices p hp
  rw [h.nodes, hnodes] at hm
  rcases List.mem_append.1 hm with hm | hm
  · exact ⟨⟨m, List.mem_append_left _ hm, ho, hres⟩, hbox⟩
  · rw [List.mem_singleton.1 hm] at ho hres
    exact absurd ho hres

/-! ## Links are added -/

/-- What leads to an input of a UI node is the UI node's own when nobody takes what it gives. -/
theorem not_leads (hm : m ∈ k.nodes) (hi : i ∈ m.inputs) (hidle : ∀ l ∈ k.links, l.2 ∉ m.outputs)
    (hp : p ∉ m.id :: m.pins) : ¬ e.graph.Leads p i := by
  intro hleads
  apply hp
  clear hp
  induction hleads using Relation.ReflTransGen.head_induction_on with
  | refl => exact List.mem_cons_of_mem _ (List.mem_append_left _ hi)
  | @head a c hstep _ ih =>
      obtain ⟨w, hs⟩ := h.sound
      obtain ⟨n, hn, ha⟩ := (h.tables.hasNode_iff a).1
        (hs.wired.consistent.hasNode_of_mem_neighbors hstep).1
      have hn' : n ∈ k.nodes := h.nodes ▸ hn
      rcases ha with rfl | ha
      · have hc : c ∈ n.inputs := h.tables.neighbors_identity n hn ▸ hstep
        rw [h.eq_of_pin hn' hm (List.mem_cons_of_mem _ (List.mem_append_left _ hc)) ih]
        exact List.mem_cons_self
      rcases List.mem_append.1 ha with ha' | ha'
      · have hl := (h.links a c).2 ⟨⟨n, hn, ha'⟩, hstep⟩
        obtain ⟨_, _, _, m', hm', _, hc, _⟩ := h.linked hl
        rw [h.eq_of_pin hm' hm (List.mem_cons_of_mem _ (List.mem_append_right _ hc)) ih] at hc
        exact absurd hc (hidle _ hl)
      · have hc : c = n.id :=
          List.mem_singleton.1 (h.tables.neighbors_output n hn a ha' ▸ hstep)
        rw [← h.eq_of_pin hn' hm (hc ▸ List.mem_cons_self) ih]
        exact List.mem_cons_of_mem _ ha

theorem linkable (hin : k.Invites m i n o) (hroom : k.ids < lastId.toNat) : e.Linkable i o := by
  obtain ⟨w, hs⟩ := h.sound
  obtain ⟨kind, source, hsocket, hoffer, hfeeds⟩ := hin.kinds
  have hm : m ∈ e.nodes := h.nodes ▸ hin.consumer
  have hn : n ∈ e.nodes := h.nodes ▸ hin.producer
  have hi : i ∈ m.inputs := m.map_fst_sockets ▸ List.mem_map_of_mem hsocket
  have hinput : w i = some (.input m.id kind) := Wiring.Seats.input (hs.casts.plays m hm) _ hsocket
  have houtput : w o = some (.output n.id n.offer) := (hs.casts.plays n hn).output hin.output
  have hne : m.id ≠ n.id := fun hid => hin.apart (hs.casts.eq_of_id hm hn hid)
  obtain ⟨u, hu, huk⟩ := hs.wired.input_box hinput
  obtain ⟨v, hv, hvk⟩ := hs.wired.output_box houtput
  have hnil := h.unlinked hin.consumer hi hin.free
  exact {
    isInput := hs.wired.node i _ hinput
    isOutput := hs.wired.node o _ houtput
    apart := ⟨m, hm, n, hn, hi, hin.output, hne⟩
    feeds := by
      rw [hoffer] at hvk
      exact ⟨u, v, hu, hv, huk.symm ▸ (hvk : v.kind = source).symm ▸ hfeeds⟩
    free := (edgesFrom_eq_nil_iff hs.wired.consistent i).2
      (hs.wired.consistent.outDegree_eq_zero_iff.2 hnil)
    ahead := h.not_leads hin.consumer hi hin.idle fun ho => hin.apart
      (h.eq_of_pin hin.consumer hin.producer ho
        (List.mem_cons_of_mem _ (List.mem_append_right _ hin.output)))
    room := ne_lastId_of_lt (h.ids ▸ hroom) }

theorem link (hin : k.Invites m i n o) (hshader : ∀ d, .draw d ∈ k.nodes → d.shader ≠ i)
    (hroom : k.ids < lastId.toNat) :
    ∃ edge e', e.link i o = (.ok edge, e') ∧ (k.link i o).Depicts e' := by
  obtain ⟨w, hs⟩ := h.sound
  obtain ⟨edge, g, hadd, hmake, _⟩ := (h.linkable hin hroom).makeLink hs
  obtain ⟨_, _, hadds⟩ := hs.wired.consistent.addEdge hadd
  obtain ⟨hdrain, hdrained⟩ := drain_link_of_ne hs.casts.nodup h.tracked.reached.outbox hadds
    fun d hd => hshader d (h.nodes ▸ hd)
  have hlink : e.link i o = (.ok edge, e.withGraph { g with outbox := [] }) := by
    rw [Editor.link, hmake]
    exact congrArg (Prod.mk _) hdrain
  have hserved : (Operation.link i o).Served e := by
    intro edge' e' he
    rw [hmake] at he
    cases he
    exact hdrained
  have hi : ∃ m ∈ e.nodes, i ∈ m.inputs := by
    obtain ⟨_, _, hsocket, _⟩ := hin.kinds
    exact ⟨m, h.nodes ▸ hin.consumer, m.map_fst_sockets ▸ List.mem_map_of_mem hsocket⟩
  refine ⟨edge, _, hlink, ?_, h.nodes, fun j q => ?_, h.indices, h.root, ?_, h.shaders, h.settings⟩
  · have hstep := h.tracked.step (.link i o) hserved fun _ heq => by cases heq
    rwa [Operation.apply, hlink] at hstep
  · change (j, q) ∈ (i, o) :: k.links ↔ (∃ n ∈ e.nodes, j ∈ n.inputs) ∧ q ∈ g.neighbors j
    rw [List.mem_cons, Prod.mk.injEq, h.links, hadds.neighbors]
    dsimp only
    split
    · next hj =>
      subst hj
      have hnil : e.graph.neighbors j = [] := by
        obtain ⟨m, hm, hjm⟩ := hi
        exact h.unlinked (h.nodes ▸ hm) hjm hin.free
      simp [hnil, hi]
    · next hj => simp [hj]
  · change g.nextId.toNat = k.ids + 1
    rw [hadds.toNat_nextId]
    exact congrArg (· + 1) h.ids

/-- With ids enough the draw node that hears of a link gets all its inputs. -/
theorem served_of_room {d : Draw} {g : Graph} {edge : Id} {index : Int32} (hd : .draw d ∈ k.nodes)
    (hbare : d.bindings = []) (hbox : e.values.get? o = some (.int index))
    (hadds : e.graph.AddsEdge ⟨edge, d.shader, o, .external⟩ g)
    (hroom : k.ids + 1 + 2 * (k.vars index).length ≤ lastId.toNat) :
    d.EventServed { e.scene with graph := { g with outbox := [] } }
      (.linkCreated d.shader o) := by
  rintro -
  have hindex : ((e.values.get? o).bind Value.index?).getD noIndex = index := by
    rw [hbox]
    rfl
  change d.SyncServed (Scene.write { e.scene with graph := { g with outbox := [] } } d.shader
    (.int (((e.values.get? o).bind Value.index?).getD noIndex)))
      (((e.values.get? o).bind Value.index?).getD noIndex)
  rw [hindex]
  have hvars : Draw.reflected (Scene.write { e.scene with graph := { g with outbox := [] } }
      d.shader (.int index)) index = k.vars index :=
    Draw.reflected_of_shaders
      ((congrArg Services.shaders (services_write ..)).trans h.shaders) index
  have hnode : g.hasNode d.id := by
    rw [hasNode_eq, hadds.node?, ← hasNode_eq]
    exact h.hasNode hd List.mem_cons_self
  have hparams : d.params = [] := by rw [Draw.params, hbare, List.map_nil]
  refine Draw.syncServed_of_room (consistent_write (hadds.consistent.withOutbox []) _ _) ?_ ?_ ?_
  · rw [hparams]
    exact List.nodup_singleton d.id
  · rw [hparams, List.forall_mem_singleton, hasNode_write]
    exact hnode
  · rw [hvars, nextId_write]
    change g.nextId.toNat + _ ≤ _
    rw [hadds.toNat_nextId]
    exact h.ids ▸ hroom

/-- What was linked to an input stays linked to it when the draw node gets its new inputs. -/
theorem neighbors_bud {d : Draw} {g : Graph} {x : Scene} {edge : Id} {bs : List Binding}
    {index : Int32} (hd : .draw d ∈ k.nodes) (hfree : ∀ o, (d.shader, o) ∉ k.links)
    (hadds : e.graph.AddsEdge ⟨edge, d.shader, o, .external⟩ g)
    (hbuds : d.Buds index bs { e.scene with graph := { g with outbox := [] } } x)
    (hm : m ∈ k.nodes) (hi : i ∈ m.inputs) :
    x.graph.neighbors i = if i = d.shader then [o] else e.graph.neighbors i := by
  have hnew : i ∉ bs.map (·.pin) := fun hpin => by
    have hfresh : g.hasNode i = false := hbuds.fresh hpin
    rw [hasNode_eq, hadds.node?, ← hasNode_eq] at hfresh
    exact Bool.eq_false_iff.1 hfresh
      (h.hasNode hm (List.mem_cons_of_mem _ (List.mem_append_left _ hi)))
  have hne : i ≠ d.id := by
    rintro rfl
    obtain ⟨w, hs⟩ := h.sound
    obtain ⟨_, _, hrole⟩ := (hs.casts.plays m (h.nodes ▸ hm)).input hi
    have hplays : (UiNode.draw d).Plays w := hs.casts.plays _ (h.nodes ▸ hd)
    rw [show w d.id = _ from hplays.identity] at hrole
    cases hrole
  rw [hbuds.neighbors_of_ne (hadds.consistent.withOutbox []) hnew hne]
  refine (hadds.neighbors i).trans ?_
  dsimp only
  split
  · next heq =>
    subst heq
    rw [h.unlinked hd List.mem_cons_self hfree, List.nil_append]
  · rfl

/-- The draw node gets the inputs for the shader that it is linked to. -/
theorem bud {d : Draw} {pre post : List UiNode} {g : Graph} {x : Scene} {edge : Id}
    {bs : List Binding} {index : Int32} (hnodes : k.nodes = pre ++ .draw d :: post)
    (hbare : d.bindings = []) (hfree : ∀ o, (d.shader, o) ∉ k.links)
    (hadds : e.graph.AddsEdge ⟨edge, d.shader, o, .external⟩ g)
    (hbuds : d.Buds index bs { e.scene with graph := { g with outbox := [] } } x)
    (htracked : Tracked (({ e with scene := x } : Editor).replace
      (.draw { d with bindings := bs, bound := index }))) :
    ({ k with
      nodes := pre ++ UiNode.draw { d with bindings := bs, bound := index } :: post
      links := (d.shader, o) :: k.links
      ids := k.ids + 1 + 2 * bs.length } : Sketch).Depicts
      (({ e with scene := x } : Editor).replace
        (.draw { d with bindings := bs, bound := index })) := by
  have hd : .draw d ∈ k.nodes := hnodes ▸ List.mem_append_right _ List.mem_cons_self
  have hlive {p : Id} (hp : e.graph.hasNode p) : g.hasNode p := by
    rw [hasNode_eq, hadds.node?, ← hasNode_eq]
    exact hp
  have hreplace : (({ e with scene := x } : Editor).replace
      (.draw { d with bindings := bs, bound := index })).nodes =
        pre ++ UiNode.draw { d with bindings := bs, bound := index } :: post := by
    have hnodup := h.sound.choose_spec.casts.nodup
    change e.nodes.map _ = _
    rw [h.nodes, hnodes] at hnodup ⊢
    exact map_replace hnodup rfl
  refine ⟨htracked, hreplace, fun j q => ?_, fun p hp => ?_, h.root, ?_,
    (congrArg Services.shaders hbuds.services).trans h.shaders, h.settings⟩
  · change (j, q) ∈ (d.shader, o) :: k.links ↔ (∃ n ∈ (({ e with scene := x } : Editor).replace
      (.draw { d with bindings := bs, bound := index })).nodes, j ∈ n.inputs) ∧
        q ∈ x.graph.neighbors j
    rw [hreplace, exists_input_bud hbare, ← hnodes, List.mem_cons, Prod.mk.injEq, h.links, h.nodes]
    by_cases hj : ∃ m ∈ k.nodes, j ∈ m.inputs
    · obtain ⟨m, hm, hjm⟩ := id hj
      rw [h.neighbors_bud hd hfree hadds hbuds hm hjm]
      split
      · next heq =>
        subst heq
        simp [h.unlinked hd List.mem_cons_self hfree, hj]
      · next hne => simp [hne, hj]
    · have hne : j ≠ d.shader := fun heq => hj ⟨_, hd, heq ▸ List.mem_cons_self⟩
      simp only [hne, hj, false_and, or_false, false_or, false_iff, not_and]
      intro hpin
      rw [hbuds.neighbors_eq_nil (hlive (h.hasNode hd List.mem_cons_self))
        (hadds.consistent.withOutbox []) hpin]
      exact List.not_mem_nil
  · obtain ⟨⟨m, hm, hpm, hres⟩, hbox⟩ := h.indices p hp
    have hpin := List.mem_cons_of_mem m.id (List.mem_append_right m.inputs hpm)
    have hapart {a : Id} (ha : a ∈ d.id :: (UiNode.draw d).pins) : p.1 ≠ a := fun heq => by
      obtain rfl := h.eq_of_pin (h.nodes ▸ hm) hd hpin (heq ▸ ha)
      exact hres hpm
    refine ⟨⟨m, ?_, hpm, hres⟩, ?_⟩
    · rw [h.nodes, hnodes] at hm
      rw [hreplace]
      rcases List.mem_append.1 hm with hm | hm
      · exact List.mem_append_left _ hm
      · have hne : m ≠ .draw d := by
          rintro rfl
          exact hres hpm
        exact List.mem_append_right _
          (List.mem_cons_of_mem _ ((List.mem_cons.1 hm).resolve_left hne))
    · exact (hbuds.box (hlive (h.hasNode (h.nodes ▸ hm) hpin))
        (hapart (List.mem_cons_of_mem _ List.mem_cons_self))).trans hbox
  · change x.graph.nextId.toNat = _
    rw [hbuds.count]
    change g.nextId.toNat + _ = _
    rw [hadds.toNat_nextId]
    exact congrArg (· + 1 + 2 * bs.length) h.ids

/-- The draw node gets an input for each variable of the shader that is linked to it. -/
theorem link_shader {d : Draw} {pre post : List UiNode} {index : Int32}
    (hnodes : k.nodes = pre ++ .draw d :: post) (hin : k.Invites (.draw d) d.shader n o)
    (hbare : d.bindings = []) (hindex : (o, index) ∈ k.indices)
    (hroom : k.ids + 1 + 2 * (k.vars index).length ≤ lastId.toNat) :
    ∃ edge, ∃ bs : List Binding, ∃ e', e.link d.shader o = (.ok edge, e') ∧
      bs.map (fun b => (b.name, b.type)) = k.vars index ∧
        ({ k with
          nodes := pre ++ UiNode.draw { d with bindings := bs, bound := index } :: post
          links := (d.shader, o) :: k.links
          ids := k.ids + 1 + 2 * bs.length } : Sketch).Depicts e' := by
  obtain ⟨w, hs⟩ := h.sound
  obtain ⟨edge, g, hadd, hmake, _⟩ := (h.linkable hin (by omega)).makeLink hs
  obtain ⟨_, _, hadds⟩ := hs.wired.consistent.addEdge hadd
  obtain ⟨_, hbox⟩ := h.indices _ hindex
  obtain ⟨index', bs, x, hindex', hbuds, hdrain, hdrained⟩ :=
    drain_link_shader hs h.tracked.reached.tidy h.tracked.reached.outbox
      (h.nodes ▸ hin.consumer) hbare hadds (h.served_of_room hin.consumer hbare hbox hadds hroom)
  obtain rfl : index' = index := by
    rw [hindex', hbox]
    rfl
  have hlink : e.link d.shader o = (.ok edge, ({ e with scene := x } : Editor).replace
      (.draw { d with bindings := bs, bound := index' })) := by
    rw [Editor.link, hmake]
    exact congrArg (Prod.mk _) hdrain
  have hserved : (Operation.link d.shader o).Served e := by
    intro edge' e' he
    rw [hmake] at he
    cases he
    exact hdrained
  have htracked := h.tracked.step (.link d.shader o) hserved fun _ heq => by cases heq
  rw [Operation.apply, hlink] at htracked
  have h' := h.bud hnodes hbare hin.free hadds hbuds htracked
  refine ⟨edge, bs, _, hlink, ?_, h'⟩
  have hfits := htracked.fit { d with bindings := bs, bound := index' }
    (h'.nodes ▸ List.mem_append_right _ List.mem_cons_self)
  exact hfits.trans (h'.reflected index')

end Depicts

end Sketch

end Editor

end DrawGraph
