import DrawGraph.Proofs.Graph.Restore
import DrawGraph.Proofs.UiNode.Sprout
import DrawGraph.Proofs.UiNode.Trim

/-!
# What is made for a shader, seen from its end

A draw node that hears of a shader makes inputs, and without these the scene is the one before. So
to drop them is to go back, but for the ids that were given out.
-/

namespace DrawGraph

namespace Graph

variable {g g' : Graph}

/-- A graph is known by what can be asked of it. -/
theorem Consistent.eq_of_views (hc : g.Consistent) (hc' : g'.Consistent)
    (hnode : ∀ j, g.node? j = g'.node? j) (hneighbors : ∀ j, g.neighbors j = g'.neighbors j)
    (hedge : ∀ i, g.edge? i = g'.edge? i) (hnext : g.nextId = g'.nextId)
    (houtbox : g.outbox = g'.outbox) : g = g' := by
  have hlive (j : Id) : g.hasNode j = g'.hasNode j := by
    rw [hasNode_eq, hnode, ← hasNode_eq]
  have hnodes : g.nodes = g'.nodes := Table.eq_of_get? hnode
  have hedges : g.edges = g'.edges := Table.eq_of_get? hedge
  have htargets : g.targets = g'.targets := Table.eq_of_get? fun j => by
    rw [hc.targets_get?, hc'.targets_get?, hlive, hneighbors]
  have hdegrees : g.degrees = g'.degrees := Table.eq_of_get? fun j => by
    rw [hc.degrees_get?, hc'.degrees_get?, hlive, hc.count, hc'.count, hneighbors]
  cases g
  cases g'
  cases hnodes
  cases hedges
  cases htargets
  cases hdegrees
  cases hnext
  cases houtbox
  rfl

/-- Ids may be left out. -/
theorem Consistent.withNextId (hc : g.Consistent) {next : Id} (hle : g.nextId ≤ next) :
    ({ g with nextId := next } : Graph).Consistent :=
  { hc with
    node_lt := fun id hid => UInt32.lt_of_lt_of_le (hc.node_lt id hid) hle
    edge_lt := fun id hid => UInt32.lt_of_lt_of_le (hc.edge_lt id hid) hle }

end Graph

namespace Scene

open DrawGraph.Graph

/-- The scene with the ids below `next` given out. -/
def withNextId (s : Scene) (next : Id) : Scene :=
  { s with graph := { s.graph with nextId := next } }

variable {gone reset : List Id} {s s' t x : Scene} {next pin owner edge : Id}

theorem Trims.withNextId (h : Trims gone reset s s') (hle : s.graph.nextId ≤ next) :
    Trims gone reset (s.withNextId next) (s'.withNextId next) where
  consistent := h.consistent.withNextId (h.nextId ▸ hle)
  node? := h.node?
  neighbors := h.neighbors
  edge? := h.edge?
  box := h.box
  nextId := rfl
  services := h.services

/-- What is left is determined by what is gone. -/
theorem Trims.unique (h : Trims gone reset s s') (h' : Trims gone reset s t)
    (houtbox : s'.graph.outbox = t.graph.outbox) : s' = t := by
  have hgraph : s'.graph = t.graph := by
    refine h.consistent.eq_of_views h'.consistent (fun j => ?_) (fun j => ?_) (fun i => ?_)
      (h.nextId.trans h'.nextId.symm) houtbox
    · rw [h.node?, h'.node?]
    · rw [h.neighbors, h'.neighbors]
    · exact Option.ext fun f => (h.edge? i f).trans (h'.edge? i f).symm
  have hvalues : s'.values = t.values := Table.eq_of_get? fun j => by rw [h.box, h'.box]
  have hservices : s'.services = t.services := h.services.trans h'.services.symm
  cases s'
  cases t
  cases hgraph
  cases hvalues
  cases hservices
  rfl

/-- A scene without its newest input. -/
theorem trims_addInput (hc : s.graph.Consistent) (hbox : s.values.get? pin = none) {n : Node}
    {v : Value} {g₁ g₂ : Graph} (ha : s.graph.AddsNode n pin g₁)
    (he : g₁.AddsEdge ⟨edge, owner, pin, .internal⟩ g₂) :
    Trims [pin] [] { s with graph := g₂, values := s.values.put pin v }
      (s.withNextId g₂.nextId) where
  consistent := hc.withNextId (UInt32.le_trans ha.nextId_le he.nextId_le)
  node? j := by
    change s.graph.node? j = if j ∈ [pin] then none else (g₂.node? j).map _
    rw [he.node?, ha.node?]
    split
    · next hj =>
      have hfresh := ha.fresh
      rw [List.mem_singleton.1 hj]
      rwa [hasNode_eq, Option.isSome_eq_false_iff, Option.isNone_iff_eq_none] at hfresh
    · next hj =>
      rw [if_neg fun heq => hj (List.mem_singleton.2 heq)]
      simp
  neighbors j := by
    change s.graph.neighbors j = if j ∈ [pin] then [] else (g₂.neighbors j).filter _
    have hapart : (s.graph.neighbors j).filter (· ∉ [pin]) = s.graph.neighbors j := by
      refine List.filter_eq_self.2 fun t ht => decide_eq_true fun hpin => ?_
      have hlive := hc.hasNode_of_mem_neighbors ht
      rw [List.mem_singleton.1 hpin, ha.fresh] at hlive
      cases hlive.2
    rw [he.neighbors, ha.neighbors]
    split
    · next hj => exact hc.neighbors_eq_nil (List.mem_singleton.1 hj ▸ ha.fresh)
    · split
      · rw [List.filter_append, hapart]
        simp
      · rw [hapart]
  edge? i f := by
    change s.graph.edge? i = some f ↔ g₂.edge? i = some f ∧ f.source ∉ [pin] ∧ f.target ∉ [pin]
    have hfresh := he.fresh
    rw [hasEdge_eq, Option.isSome_eq_false_iff, Option.isNone_iff_eq_none, ha.edge?] at hfresh
    rw [he.edge?, ha.edge?]
    split
    · next hi =>
      rw [hi, hfresh]
      constructor
      · exact fun h => nomatch h
      · rintro ⟨heq, _, htarget⟩
        cases heq
        exact absurd List.mem_cons_self htarget
    · refine ⟨fun hf => ⟨hf, fun hs => ?_, fun ht => ?_⟩, And.left⟩
      · have hlive := (hc.ends i f hf).1
        rw [List.mem_singleton.1 hs, ha.fresh] at hlive
        cases hlive
      · have hlive := (hc.ends i f hf).2
        rw [List.mem_singleton.1 ht, ha.fresh] at hlive
        cases hlive
  box j := by
    change s.values.get? j = if j ∈ [pin] then none else _
    rw [Table.get?_put]
    by_cases hj : j = pin
    · simp [hj, hbox]
    · simp [hj]
  nextId := rfl
  services := rfl

/-! ## The end of a link -/

/-- `s'` is `s` with one more edge. Ids and events do not count. -/
structure Links (f : Edge) (s s' : Scene) : Prop where
  fresh : s.graph.edge? f.id = none
  node? : ∀ j, s'.graph.node? j = s.graph.node? j
  neighbors : ∀ j, s'.graph.neighbors j =
    if j = f.source then s.graph.neighbors j ++ [f.target] else s.graph.neighbors j
  edge? : ∀ i, s'.graph.edge? i = if i = f.id then some f else s.graph.edge? i
  box : ∀ j, s'.values.get? j = s.values.get? j
  services : s'.services = s.services

variable {f : Edge} {g : Graph}

theorem links_addEdge (h : s.graph.AddsEdge f g) (events : List Event) :
    Links f s { s with graph := { g with outbox := events } } where
  fresh := by
    have hfresh := h.fresh
    rwa [hasEdge_eq, Option.isSome_eq_false_iff, Option.isNone_iff_eq_none] at hfresh
  node? := h.node?
  neighbors := h.neighbors
  edge? := h.edge?
  box _ := rfl
  services := rfl

theorem Links.write (h : Links f s s') (p : Id) (v : Value) :
    Links f (s.write p v) (s'.write p v) where
  fresh := by rw [edge?_write, h.fresh]
  node? j := by rw [node?_write, node?_write, h.node?]
  neighbors j := by rw [neighbors_write, neighbors_write, h.neighbors]
  edge? i := by rw [edge?_write, edge?_write, h.edge?]
  box j := by rw [get?_write, get?_write, h.box]
  services := by rw [services_write, services_write, h.services]

/-- Without an edge that was the only one of its pin, what was left is what was there before it. -/
theorem Trims.unlink (h : Trims gone reset x (s'.withNextId x.graph.nextId)) (hl : Links f s s')
    (hc : s.graph.Consistent) (hnil : s.graph.neighbors f.source = [])
    (hlive : f.source ∉ gone) (hle : s.graph.nextId ≤ x.graph.nextId)
    (herases : x.graph.ErasesEdge f g) (events : List Event) :
    Trims gone reset { x with graph := { g with outbox := events } }
      (s.withNextId x.graph.nextId) where
  consistent := hc.withNextId hle
  node? j := by
    change _ = if j ∈ gone then none else (g.node? j).map _
    rw [herases.node?]
    exact (hl.node? j).symm.trans (h.node? j)
  neighbors j := by
    have hbefore := (hl.neighbors j).symm.trans (h.neighbors j)
    change _ = if j ∈ gone then [] else (g.neighbors j).filter _
    rw [herases.neighbors]
    by_cases hj : j = f.source
    · subst hj
      rw [if_pos rfl, if_neg hlive, hnil, List.nil_append] at hbefore
      rw [if_neg hlive, if_pos rfl, ← List.erase_filter, ← hbefore, List.erase_cons_head]
      exact hnil
    · rw [if_neg hj] at hbefore ⊢
      exact hbefore
  edge? i f' := by
    have hbefore := h.edge? i f'
    rw [show (s'.withNextId x.graph.nextId).graph.edge? i = _ from hl.edge? i] at hbefore
    change s.graph.edge? i = some f' ↔ g.edge? i = some f' ∧ _
    rw [herases.edge?]
    split
    · next hi => simp [hi, hl.fresh]
    · next hi => rwa [if_neg hi] at hbefore
  box j := (hl.box j).symm.trans (h.box j)
  nextId := herases.nextId.symm
  services := hl.services.symm.trans h.services

/-- Which index a pin had does not matter when it has none any more. -/
theorem trims_rewrite (hc : s.graph.Consistent) (pin : Id) (k : Int32) :
    Trims [] [pin] (s.write pin (.int k)) (s.write pin (.int noIndex)) where
  consistent := consistent_write hc pin _
  node? j := by
    rw [node?_write, node?_write, Option.map_map, if_neg List.not_mem_nil]
    congr 1
    funext n
    by_cases hj : j = pin <;> simp [hj, Value.scalar?]
  neighbors j := by simp
  edge? i f := by simp
  box j := by
    rw [get?_write, get?_write]
    by_cases hj : j = pin <;> simp [hj]
  nextId := by rw [nextId_write, nextId_write]
  services := by rw [services_write, services_write]

end Scene

open Scene DrawGraph.Graph

namespace Draw

variable {d : Draw} {s : Scene}

/-- Inputs for all variables of a shader. -/
theorem build_trims (hc : s.graph.Consistent)
    (hboxes : ∀ p, (s.values.get? p).isSome → p < s.graph.nextId) (d : Draw)
    (vars : List (String × BindingType))
    (hserved : BuildServed d.id s vars) :
    ∃ bs, (d.build s vars).1.bindings = d.bindings ++ bs ∧
      (d.build s vars).2.graph.nextId.toNat = s.graph.nextId.toNat + 2 * bs.length ∧
        Trims (bs.map (·.pin)) [] (d.build s vars).2
          (s.withNextId (d.build s vars).2.graph.nextId) := by
  induction vars generalizing d s with
  | nil =>
      refine ⟨[], (List.append_nil _).symm, rfl, ?_⟩
      exact .refl hc
  | cons var vars ih =>
      obtain ⟨name, type⟩ := var
      obtain ⟨pin, s', hx, hrest⟩ := buildServed_cons.1 hserved
      rw [build, hx]
      obtain ⟨g₁, edge, g₂, ha, he, _, rfl⟩ := addsInput hc hx
      have hle : s.graph.nextId ≤ g₂.nextId := UInt32.le_trans ha.nextId_le he.nextId_le
      have hbox : s.values.get? pin = none := by
        rw [← Option.not_isSome_iff_eq_none]
        intro hsome
        have hlt := hboxes pin hsome
        rw [ha.id_eq] at hlt
        exact UInt32.lt_irrefl _ hlt
      have hboxes' (p : Id) (hp : ((s.values.put pin (.ofKind type.kind)).get? p).isSome) :
          p < g₂.nextId := by
        rw [Table.get?_put] at hp
        split at hp
        · next heq => exact heq ▸ UInt32.lt_of_lt_of_le ha.lt_nextId he.nextId_le
        · exact UInt32.lt_of_lt_of_le (hboxes p hp) hle
      obtain ⟨bs, hbs, hcount, htrims⟩ := ih (s := ⟨g₂, s.values.put pin (.ofKind type.kind),
        s.services⟩) he.consistent hboxes'
          { d with bindings := d.bindings ++ [⟨pin, name, type⟩] } hrest
      have hcount' : g₂.nextId.toNat + 2 * bs.length =
          s.graph.nextId.toNat + 2 * (⟨pin, name, type⟩ :: bs : List Binding).length := by
        rw [he.toNat_nextId, ha.toNat_nextId, List.length_cons]
        omega
      refine ⟨⟨pin, name, type⟩ :: bs, by rw [hbs, List.append_assoc]; rfl,
        hcount.trans hcount', ?_⟩
      have hle' := UInt32.le_iff_toNat_le.2 (hcount ▸ Nat.le_add_right ..)
      have hfirst := (trims_addInput (v := .ofKind type.kind) hc hbox ha he).withNextId hle'
      exact (htrims.trans hfirst fun _ hp => absurd hp List.not_mem_nil).congr
        (fun j => by simp [or_comm]) fun _ => .rfl

/-- `x` is `s` with the index of a shader in the shader pin and with inputs for its variables. -/
structure Buds (d : Draw) (index : Int32) (bs : List Binding) (s x : Scene) : Prop where
  sprouts : Sprouts d.id (bs.map (·.pin)) (s.write d.shader (.int index)).graph x.graph
  count : x.graph.nextId.toNat = s.graph.nextId.toNat + 2 * bs.length
  trims : Trims (bs.map (·.pin)) [] x ((s.write d.shader (.int index)).withNextId x.graph.nextId)

namespace Buds

variable {index : Int32} {bs : List Binding} {x : Scene} (h : d.Buds index bs s x)

include h

theorem nextId : s.graph.nextId ≤ x.graph.nextId :=
  UInt32.le_iff_toNat_le.2 (h.count ▸ Nat.le_add_right ..)

theorem services : x.services = s.services := by
  have hservices : (s.write d.shader (.int index)).services = x.services := h.trims.services
  rw [← hservices, services_write]

theorem fresh {p : Id} (hp : p ∈ bs.map (·.pin)) : s.graph.hasNode p = false := by
  have hfresh := h.sprouts.fresh p hp
  rwa [hasNode_write] at hfresh

/-- Nothing is linked to a new input. -/
theorem neighbors_eq_nil (hid : s.graph.hasNode d.id) (hc : s.graph.Consistent) {p : Id}
    (hp : p ∈ bs.map (·.pin)) : x.graph.neighbors p = [] := by
  refine List.eq_nil_iff_forall_not_mem.2 fun t ht => ?_
  obtain ⟨f, hf, rfl⟩ := h.sprouts.consistent.mem_neighbors.1 ht
  obtain ⟨⟨i, hi⟩, rfl⟩ := mem_edgesFrom.1 hf
  have hfresh := h.fresh hp
  rcases h.sprouts.sprout i f hi with hold | ⟨q, _, rfl⟩
  · rw [edge?_write] at hold
    rw [(hc.ends i f hold).1] at hfresh
    cases hfresh
  · rw [hid] at hfresh
    cases hfresh

/-- Only the draw node leads to the new inputs. -/
theorem neighbors_of_ne (hc : s.graph.Consistent) {j : Id} (hj : j ∉ bs.map (·.pin))
    (hne : j ≠ d.id) : x.graph.neighbors j = s.graph.neighbors j := by
  have hold : ∀ t ∈ x.graph.neighbors j, t ∉ bs.map (·.pin) := by
    intro t ht hp
    obtain ⟨f, hf, rfl⟩ := h.sprouts.consistent.mem_neighbors.1 ht
    obtain ⟨⟨i, hi⟩, rfl⟩ := mem_edgesFrom.1 hf
    rcases h.sprouts.sprout i f hi with hedge | ⟨q, _, rfl⟩
    · rw [edge?_write] at hedge
      have hlive := (hc.ends i f hedge).2
      rw [h.fresh hp] at hlive
      cases hlive
    · exact hne rfl
  have hneighbors : (s.write d.shader (.int index)).graph.neighbors j = if j ∈ bs.map (·.pin)
      then [] else (x.graph.neighbors j).filter (· ∉ bs.map (·.pin)) := h.trims.neighbors j
  rw [neighbors_write, if_neg hj, List.filter_eq_self.2 fun t ht => decide_eq_true (hold t ht)]
    at hneighbors
  exact hneighbors.symm

theorem box {j : Id} (hj : s.graph.hasNode j) (hne : j ≠ d.shader) :
    x.values.get? j = s.values.get? j := by
  have hnew : j ∉ bs.map (·.pin) := fun hp => by
    rw [h.fresh hp] at hj
    cases hj
  have hbox : (s.write d.shader (.int index)).values.get? j = if j ∈ bs.map (·.pin) then none else
      if j ∈ [] then some (.int noIndex) else x.values.get? j := h.trims.box j
  rw [get?_write, if_neg hne, if_neg hnew, if_neg List.not_mem_nil] at hbox
  exact hbox.symm

end Buds

/-- A draw node without inputs for a shader hears of one. -/
theorem onEvent_buds (hc : s.graph.Consistent)
    (hboxes : ∀ p, (s.values.get? p).isSome → p < s.graph.nextId)
    (hshader : d.shader < s.graph.nextId) (h : d.bindings = []) (target : Id)
    (hserved : d.EventServed s (.linkCreated d.shader target)) :
    ∃ index bs x, index = ((s.values.get? target).bind Value.index?).getD noIndex ∧
      d.onEvent s (.linkCreated d.shader target) = ({ d with bindings := bs, bound := index }, x) ∧
        d.Buds index bs s x := by
  have hsync : d.onEvent s (.linkCreated d.shader target) =
      d.sync (s.write d.shader (.int (((s.values.get? target).bind Value.index?).getD noIndex)))
        (((s.values.get? target).bind Value.index?).getD noIndex) := if_pos rfl
  have hasked := hserved rfl
  rw [hsync]
  generalize ((s.values.get? target).bind Value.index?).getD noIndex = k at hasked ⊢
  have hwrite := Scene.consistent_write hc d.shader (.int k)
  rw [sync_eq_build h]
  obtain ⟨bs, hd, hsprouts, _⟩ := build_sprouts hwrite { d with bound := k }
    (reflected (s.write d.shader (.int k)) k)
  have hboxes' (p : Id) (hp : ((s.write d.shader (.int k)).values.get? p).isSome) :
      p < (s.write d.shader (.int k)).graph.nextId := by
    rw [nextId_write]
    rw [get?_write] at hp
    split at hp
    · next heq => exact heq ▸ hshader
    · exact hboxes p hp
  obtain ⟨bs', hbs', hcount, htrims⟩ := build_trims hwrite hboxes' { d with bound := k } _
    (hasked.build h)
  obtain rfl : bs' = bs := by
    rw [hd] at hbs'
    exact (List.append_cancel_left hbs').symm
  rw [nextId_write] at hcount
  refine ⟨k, bs', _, rfl, Prod.ext ?_ rfl, ⟨hsprouts, hcount, htrims⟩⟩
  rw [hd, h]
  rfl

/-- Nothing is linked to the inputs that a draw node has just made. -/
theorem Buds.cut_eq_nil {index : Int32} {bs : List Binding} {x t : Scene} {f : Edge}
    {g : Graph} {cut : List Edge} {events : List Event} (hbuds : d.Buds index bs s x)
    (hc : s.graph.Consistent) (herases : x.graph.ErasesEdge f g)
    (htrims : Trims (bs.map (·.pin)) [d.shader] { x with graph := { g with outbox := events } } t)
    (hcuts : ({ g with outbox := events } : Graph).Cuts cut t.graph) : cut = [] := by
  refine List.eq_nil_iff_forall_not_mem.2 fun k hk => ?_
  obtain ⟨⟨hedge, hx⟩, htouch⟩ :=
    (htrims.mem_cut (herases.consistent.withOutbox events) hcuts).1 hk
  have hkept : x.graph.edge? k.id = some k := by
    have hg : g.edge? k.id = some k := hedge
    rw [herases.edge?] at hg
    split at hg
    · cases hg
    · exact hg
  rcases hbuds.sprouts.sprout _ _ hkept with hold | ⟨p, _, heq⟩
  · have hends := (consistent_write hc d.shader (.int index)).ends _ _ hold
    have hfresh := hbuds.sprouts.fresh
    rcases htouch with hmem | hmem
    · exact Bool.noConfusion ((hfresh _ hmem).symm.trans hends.1)
    · exact Bool.noConfusion ((hfresh _ hmem).symm.trans hends.2)
  · rw [heq] at hx
    cases hx

end Draw

end DrawGraph
