import DrawGraph.Proofs.Document

/-!
# Documents written anew

Whatever text a document was read from, its parts fit together and can be written. Writing lists the
edges by id, while reading keeps the order in which the text has them. So the targets of a node that
a text lists out of that order come back in another; all the rest comes back as it was read.
-/

namespace DrawGraph

open Reading UiNode

namespace Document

variable {g : Graph}

theorem obtains_accept (r : Except GraphError Graph) : Obtains (accept r) fun g => r = .ok g := by
  cases r with
  | ok g => exact obtains_pure rfl
  | error e => exact obtains_throw _

/-- A graph that is read: its tables agree and no event waits. -/
def Quiet (g : Graph) : Prop := g.Consistent ∧ g.outbox = []

theorem Quiet.restoreNode {g' : Graph} (h : Quiet g) {id : Id} {n : Node}
    (hr : g.restoreNode id n = .ok g') : Quiet g' := by
  refine ⟨h.1.restoreNode hr, ?_⟩
  obtain ⟨_, _, rfl⟩ := Graph.restoreNode_eq_ok.1 hr
  exact h.2

theorem Quiet.restoreEdge {g' : Graph} (h : Quiet g) {e : Edge} (hr : g.restoreEdge e = .ok g') :
    Quiet g' := by
  refine ⟨h.1.restoreEdge hr, ?_⟩
  obtain ⟨_, _, _, rfl⟩ := Graph.restoreEdge_eq_ok.1 hr
  exact h.2

theorem obtains_readNode : Obtains readNode fun _ => True := by
  refine obtains_nextLine.bind fun _ _ => ?_
  refine (obtains_keyword _).bind fun _ _ => ?_
  refine (obtains_form _ _).bind fun _ _ => ?_
  iterate 2 refine (obtains_tagged _ _).bind fun _ _ => ?_
  exact (obtains_form _ _).bind_pure fun _ _ => trivial

theorem obtains_readEdge : Obtains readEdge fun _ => True := by
  refine obtains_nextLine.bind fun _ _ => ?_
  refine (obtains_keyword _).bind fun _ _ => ?_
  iterate 3 refine (obtains_form _ _).bind fun _ _ => ?_
  exact (obtains_tagged _ _).bind_pure fun _ _ => trivial

theorem obtains_readCount : Obtains readCount fun _ => True :=
  obtains_nextLine.bind fun _ _ => obtains_form _ _

theorem obtains_readHeader : Obtains readHeader fun _ => True := by
  refine obtains_nextLine.bind fun _ _ => ?_
  refine (obtains_keyword _).bind fun _ _ => ?_
  exact obtains_nextLine.bind fun _ _ => obtains_form _ _

theorem obtains_readRoot : Obtains readRoot fun _ => True := by
  refine obtains_nextLine.bind fun _ _ => ?_
  refine (obtains_keyword _).bind fun _ _ => ?_
  exact obtains_nextLine.bind fun _ _ => obtains_optionalId

theorem obtains_readNodes (h : Quiet g) (k : Nat) : Obtains (readNodes g k) Quiet := by
  induction k generalizing g with
  | zero => exact obtains_pure h
  | succ k ih =>
      refine (obtains_readNode.parsing _).bind fun p _ => ?_
      exact (obtains_accept _).bind fun g' hg' => ih (h.restoreNode hg')

theorem obtains_readEdges (h : Quiet g) (k : Nat) : Obtains (readEdges g k) Quiet := by
  induction k generalizing g with
  | zero => exact obtains_pure h
  | succ k ih =>
      refine (obtains_readEdge.parsing _).bind fun e _ => ?_
      exact (obtains_accept _).bind fun g' hg' => ih (h.restoreEdge hg')

theorem obtains_readGraph : Obtains readGraph Quiet := by
  refine (obtains_readHeader.parsing _).bind fun next _ => ?_
  refine (obtains_readCount.parsing _).bind fun k _ => ?_
  refine (obtains_readNodes ⟨.empty, rfl⟩ k).bind fun g hg => ?_
  refine (obtains_readCount.parsing _).bind fun k _ => ?_
  exact (obtains_readEdges hg k).bind_pure fun g hg => ⟨hg.1.reserve next, hg.2⟩

theorem obtains_readUiNode : Obtains readUiNode fun found => ∀ n ∈ found, n.Fresh := by
  have hpass : Obtains (modify fun r : Reader => r.skipUntil uiWord.toList : Reading PUnit)
      fun _ => True := fun r hr =>
    Attempt.ensures_of_ok (Attempt.on_modify _ r) ⟨hr.skipUntil _, trivial⟩
  refine obtains_nextLine.bind fun _ _ => ?_
  refine (obtains_keyword _).bind fun _ _ => ?_
  refine (obtains_form _ _).bind fun tag _ => ?_
  split
  · exact hpass.bind_pure fun _ _ _ hn => nomatch hn
  · next kind _ =>
    -- the record ends the reading early, read or passed over
    refine Obtains.bind
      (?_ : Obtains _ fun e => ∃ found, e = .error found ∧ ∀ n ∈ found, n.Fresh) ?_
    · refine ((obtains_read kind).bind fun n hn => ?_).caught fun _ => ?_
      · refine obtains_pure ⟨some n, rfl, ?_⟩
        rintro m ⟨⟩
        exact hn
      · exact hpass.bind_pure fun _ _ => ⟨none, rfl, fun _ hm => nomatch hm⟩
    · rintro _ ⟨found, rfl, hfound⟩
      exact obtains_pure hfound

/-- UI nodes that were read for a graph. -/
structure Taken (g : Graph) (nodes : List UiNode) : Prop where
  resolves : ∀ n ∈ nodes, resolves g n
  nodup : (nodes.map UiNode.id).Nodup
  fresh : ∀ n ∈ nodes, n.Fresh

theorem taken_nil (g : Graph) : Taken g [] where
  resolves _ hn := nomatch hn
  nodup := List.nodup_nil
  fresh _ hn := nomatch hn

theorem Taken.concat {nodes : List UiNode} (h : Taken g nodes) {n : UiNode}
    (hn : Document.resolves g n) (hnew : ∀ m ∈ nodes, m.id ≠ n.id) (hfresh : n.Fresh) :
    Taken g (nodes ++ [n]) where
  resolves := List.forall_mem_append.2 ⟨h.resolves, List.forall_mem_singleton.2 hn⟩
  nodup := by
    rw [List.map_append, List.map_singleton, List.nodup_append]
    refine ⟨h.nodup, List.nodup_singleton _, ?_⟩
    intro a ha b hb
    obtain ⟨m, hm, rfl⟩ := List.mem_map.1 ha
    obtain rfl := List.mem_singleton.1 hb
    exact hnew m hm
  fresh := List.forall_mem_append.2 ⟨h.fresh, List.forall_mem_singleton.2 hfresh⟩

theorem obtains_readUiNodes {before : List UiNode} (h : Taken g before) (k : Nat) :
    Obtains (readUiNodes g before k) (Taken g) := by
  induction k generalizing before with
  | zero => exact obtains_pure h
  | succ k ih =>
      apply obtains_get_bind
      intro r hr
      split
      · exact obtains_pure h r hr
      · refine obtains_readUiNode.bind (fun found hfound => ?_) r hr
        cases found with
        | none => exact ih h
        | some n =>
            dsimp only
            split
            · next hfits =>
              obtain ⟨hn, hnew⟩ := Bool.and_eq_true_iff.1 hfits
              refine ih (h.concat hn ?_ (hfound n rfl))
              simpa using hnew
            · exact ih h

/-- A document that was read from a text. -/
structure Parsed (d : Document) : Prop where
  quiet : Quiet d.graph
  root : d.root.filter d.graph.hasNode = d.root
  taken : Taken d.graph d.nodes

theorem obtains_load : Obtains load Parsed := by
  refine obtains_readGraph.bind fun g hg => ?_
  refine (obtains_readRoot.parsing _).bind fun root _ => ?_
  refine (obtains_readCount.parsing _).bind fun k _ => ?_
  refine ((obtains_readUiNodes (taken_nil g) k).parsing _).bind_pure fun nodes hnodes => ?_
  refine ⟨hg, ?_, hnodes⟩
  rw [Option.filter_filter]
  simp

theorem parsed_of_parse {text : String} {d : Document} (h : parse text = .ok d) : d.Parsed := by
  have hload := obtains_load _ (Reader.worded_ofText text)
  exact (hload.of_ok (Prod.ext h rfl)).2

variable {d : Document}

theorem Parsed.legible (h : d.Parsed) : d.Legible .empty where
  consistent := h.quiet.1
  resolves := h.taken.resolves
  nodup := h.taken.nodup
  legible n hn := (h.taken.fresh n hn).legible

theorem Parsed.recorded (h : d.Parsed) : d.nodes.map (recorded .empty) = d.nodes :=
  (List.map_congr_left fun n hn => (h.taken.fresh n hn).recorded).trans (List.map_id _)

/-- A document that was read is written to a text that gives it again just if the targets in its
graph stand in the order of their edges and the number of inputs of each draw node is one of 32
bits. If only the latter holds, all comes back but the order of the targets, which is then that of
the edges. -/
theorem parse_render_of_parse {text : String} (h : parse text = .ok d) :
    (parse (d.render .empty) = .ok d ↔
      d.graph.Aligned ∧ ∀ n ∈ d.nodes, n.bindings.length < UInt32.size) ∧
    ∃ g : Graph, g.Aligned ∧ g = { d.graph with targets := g.targets } ∧
      (parse (d.render .empty) = .ok { d with graph := g } ↔
        ∀ n ∈ d.nodes, n.bindings.length < UInt32.size) := by
  have hd := parsed_of_parse h
  obtain ⟨hc, hquiet⟩ := hd.quiet
  have hread := hd.legible.parse_render_iff
  rw [hd.root, hd.recorded] at hread
  have hbare : { d.graph with outbox := [] } = d.graph := by rw [← hquiet]
  have hsame : d.graph.rebuild = d.graph ↔ d.graph.Aligned := by
    rw [← hc.rebuild_eq_iff, hbare]
  have hrest : d.graph.rebuild = { d.graph with targets := d.graph.rebuild.targets } := by
    rw [hc.rebuild_eq, ← hquiet]
  refine ⟨?_, d.graph.rebuild, hc.aligned_rebuild, hrest, hread⟩
  constructor
  · intro hback
    have hgraph := hd.legible.graph_of_parse_render hback
    refine ⟨hsame.1 hgraph.symm, hread.1 ?_⟩
    rw [← hgraph, hback]
  · rintro ⟨haligned, hcount⟩
    rw [hread.2 hcount, hsame.2 haligned]

/-- Two edges that leave one node, the younger first. -/
def swapped : String :=
  "#graph\n6\n3\nn 0 0 0 0\nn 1 0 0 0\nn 2 0 0 0\n2\ne 5 0 2 0\ne 4 0 1 0\n#ui_nodes\n-1\n0\n"

/-- What a text tells of the first node: its targets, and those of its edges by id. -/
def firstTargets (text : String) : Option (List Id × List Id) :=
  (parse text).toOption.map fun d =>
    (d.graph.neighbors 0, (d.graph.edgesFrom 0).map Edge.target)

theorem parse_render_swapped : ∃ d, parse swapped = .ok d ∧ d.graph.neighbors 0 = [2, 1] ∧
    parse (d.render .empty) ≠ .ok d ∧ ∃ g : Graph, g.neighbors 0 = [1, 2] ∧
      parse (d.render .empty) = .ok { d with graph := g } := by
  have htargets : firstTargets swapped = some ([2, 1], [1, 2]) := by decide +kernel
  have hnodes : (parse swapped).toOption.map (fun d => d.nodes.length) = some 0 := by
    decide +kernel
  obtain ⟨d, hd⟩ : ∃ d, parse swapped = .ok d := by
    cases h : parse swapped with
    | ok d => exact ⟨d, rfl⟩
    | error e =>
        rw [h] at hnodes
        cases hnodes
  rw [firstTargets, hd] at htargets
  rw [hd] at hnodes
  obtain ⟨hneighbors, hedges⟩ := Prod.mk.inj (Option.some.inj htargets)
  have hnil : d.nodes = [] := List.eq_nil_of_length_eq_zero (Option.some.inj hnodes)
  have hcount : ∀ n ∈ d.nodes, n.bindings.length < UInt32.size := by simp [hnil]
  obtain ⟨hback, g, hg, hrest, hread⟩ := parse_render_of_parse hd
  refine ⟨d, hd, hneighbors, fun h => ?_, g, ?_, hread.2 hcount⟩
  · have haligned := (hback.1 h).1.inOrder 0
    rw [hneighbors, hedges] at haligned
    cases haligned
  · have hsame : g.edges = d.graph.edges := by rw [hrest]
    rw [hg.inOrder, Graph.edgesFrom, Graph.edgeList, hsame]
    exact hedges

end Document

end DrawGraph
