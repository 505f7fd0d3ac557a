import DrawGraph.Document.Basic
import DrawGraph.Proofs.Graph.Restore
import DrawGraph.Proofs.UiNode.Record

/-!
# Documents are read back

The text of a document, read, gives the document: its graph without the events that waited in it,
its root as far as that is a node of the graph, and of each UI node what its record tells. No record
is passed over.
-/

namespace DrawGraph

open Reading UiNode

theorem reads_accept {α : Type} {r : Except GraphError α} {a : α} (h : r = .ok a) (p : Page) :
    Reads (Document.accept r) p a p := by
  subst h
  exact reads_pure p a

namespace Document

variable {g : Graph} {values : ValueStore} {n : UiNode}

/-! ## Lines of the graph -/

theorem plain_of_word {s : String} {l : Line} (hs : s ≠ "") (h : ∀ t, .word t ∉ l) :
    Line.Plain (.word s :: l) := by
  constructor
  · intro t ht
    rcases List.mem_cons.1 ht with ht | ht
    · cases ht
      exact hs
    · exact absurd ht (h t)
  · exact List.cons_ne_nil _ _

theorem plain_countLine (n : Nat) : (countLine n).Plain := by
  constructor
  · intro s hs
    cases List.mem_singleton.1 hs
  · exact List.cons_ne_nil _ _

theorem reads_readCount {n : Nat} (hn : n < UInt32.size) (ws : List Word) (ls : List (List Word)) :
    Reads readCount (ws, (countLine n).words :: ls) n ([], ls) := by
  have hcount : Reads count ((Field.unsigned (.ofNat n)).words ++ [], ls) _ ([], ls) :=
    reads_count (.ofNat n)
  rw [UInt32.toNat_ofNat_of_lt' hn] at hcount
  exact (reads_nextLine _ _).bind hcount

theorem reads_readNode (p : Id × Node) (ws : List Word) (ls : List (List Word)) :
    Reads readNode (ws, (nodeLine p.1 p.2).words :: ls) p ([], ls) := by
  have htype : p.2.type.tag < UInt32.size := by cases p.2.type <;> decide
  have hdirection : p.2.direction.tag < UInt32.size := by cases p.2.direction <;> decide
  apply (reads_nextLine _ _).bind
  apply (reads_keyword (by decide)).bind
  apply (reads_ident p.1).bind
  apply (reads_tagged htype (NodeType.ofTag?_tag _)).bind
  apply (reads_tagged hdirection (Direction.ofTag?_tag _)).bind
  exact (reads_number p.2.value).bind_pure

theorem reads_readEdge (e : Edge) (ws : List Word) (ls : List (List Word)) :
    Reads readEdge (ws, (edgeLine e).words :: ls) e ([], ls) := by
  have hkind : e.kind.tag < UInt32.size := by cases e.kind <;> decide
  apply (reads_nextLine _ _).bind
  apply (reads_keyword (by decide)).bind
  apply (reads_unsigned e.id).bind
  apply (reads_ident e.source).bind
  apply (reads_ident e.target).bind
  exact (reads_tagged hkind (EdgeKind.ofTag?_tag _)).bind_pure

theorem reads_readNodes {nodes : List (Id × Node)} (hnodup : (nodes.map Prod.fst).Nodup)
    (hnew : ∀ p ∈ nodes, p.1 ≠ Graph.lastId ∧ g.hasNode p.1 = false) (ls : List (List Word)) :
    Reads (readNodes g nodes.length)
      ([], (nodes.map fun p => nodeLine p.1 p.2).map Line.words ++ ls) (g.placeAll nodes)
      ([], ls) := by
  induction nodes generalizing g with
  | nil => exact reads_pure _ _
  | cons p nodes ih =>
      obtain ⟨hp, hnodup⟩ := List.nodup_cons.1 hnodup
      obtain ⟨⟨hlast, hfresh⟩, hnew⟩ := List.forall_mem_cons.1 hnew
      apply ((reads_readNode p _ _).parsing _).bind
      apply (reads_accept (Graph.restoreNode_eq_ok.2 ⟨hlast, hfresh, rfl⟩) _).bind
      apply ih hnodup
      intro q hq
      obtain ⟨hlast, hfresh⟩ := hnew q hq
      refine ⟨hlast, ?_⟩
      have hne : q.1 ≠ p.1 := fun heq => hp (heq ▸ List.mem_map_of_mem hq)
      have hplace := Graph.hasNode_place g p.1 p.2 q.1
      rw [Bool.eq_false_iff] at hfresh ⊢
      exact fun hq => (hplace.1 hq).elim hne hfresh

theorem reads_readEdges {edges : List Edge} (hnodup : (edges.map Edge.id).Nodup)
    (hends : ∀ e ∈ edges, g.hasNode e.source ∧ g.hasNode e.target)
    (hnew : ∀ e ∈ edges, e.id ≠ Graph.lastId ∧ g.hasEdge e.id = false) (ls : List (List Word)) :
    Reads (readEdges g edges.length) ([], (edges.map edgeLine).map Line.words ++ ls)
      (g.attachAll edges) ([], ls) := by
  induction edges generalizing g with
  | nil => exact reads_pure _ _
  | cons e edges ih =>
      obtain ⟨he, hnodup⟩ := List.nodup_cons.1 hnodup
      obtain ⟨⟨hlast, hfresh⟩, hnew⟩ := List.forall_mem_cons.1 hnew
      obtain ⟨⟨hsource, htarget⟩, hends⟩ := List.forall_mem_cons.1 hends
      apply ((reads_readEdge e _ _).parsing _).bind
      have hrestore := Graph.restoreEdge_eq_ok.2 ⟨⟨hsource, htarget⟩, hlast, hfresh, rfl⟩
      apply (reads_accept hrestore _).bind
      apply ih (g := (g.attach e).reserve (e.id + 1)) hnodup hends
      intro f hf
      obtain ⟨hlast, hstill⟩ := hnew f hf
      refine ⟨hlast, ?_⟩
      have hne : f.id ≠ e.id := fun heq => he (heq ▸ List.mem_map_of_mem hf)
      have hattach := Graph.edge?_attach hfresh f.id
      rw [if_neg hne] at hattach
      rw [Graph.hasEdge_eq] at hstill ⊢
      exact (congrArg Option.isSome hattach).trans hstill

theorem reads_readHeader (next : Id) (ls : List (List Word)) :
    Reads readHeader
      ([], Line.words [.word graphHeader] :: Line.words [.unsigned next] :: ls) next ([], ls) := by
  apply (reads_nextLine _ _).bind
  apply (reads_keyword (by decide)).bind
  apply (reads_nextLine _ _).bind
  exact reads_unsigned _

/-- The lines of a graph give it anew. -/
theorem reads_readGraph (hc : g.Consistent) (ls : List (List Word)) :
    Reads readGraph ([], (graphLines g).map Line.words ++ ls) g.rebuild ([], ls) := by
  have hempty (id : Id) : Graph.empty.hasNode id = false := by
    rw [Graph.hasNode_eq, Graph.node?]
    exact congrArg Option.isSome (Table.get?_empty id)
  have hnodes := reads_readNodes (g := .empty) g.nodes.nodup_keys
    (fun p hp => ⟨Graph.ne_lastId (hc.lt_of_mem_nodes hp), hempty p.1⟩)
  generalize hplaced : Graph.empty.placeAll g.nodes.entries = placed at hnodes
  have hends : ∀ e ∈ g.edgeList, placed.hasNode e.source ∧ placed.hasNode e.target := by
    intro e he
    obtain ⟨id, hid⟩ := Graph.mem_edgeList.1 he
    rw [← hplaced, Graph.hasNode, Graph.hasNode, Graph.nodes_placeAll_entries]
    exact hc.ends id e hid
  have hnew (id : Id) : placed.hasEdge id = false := by
    rw [← hplaced, Graph.hasEdge_eq, Graph.edge?, (Graph.edges_placeAll _ _).1]
    exact congrArg Option.isSome (Table.get?_empty id)
  have hedges := reads_readEdges (Graph.nodup_edgeIds hc) hends
    fun e he => ⟨Graph.ne_lastId (hc.lt_of_mem_edgeList he), hnew e.id⟩
  rw [Table.length_entries] at hnodes
  rw [Graph.length_edgeList] at hedges
  rw [Graph.rebuild, hplaced]
  simp only [graphLines, List.map_cons, List.map_append, List.cons_append, List.append_assoc]
  apply ((reads_readHeader _ _).parsing _).bind
  apply ((reads_readCount hc.size_nodes_lt _ _).parsing _).bind
  apply (hnodes _).bind
  apply ((reads_readCount hc.size_edges_lt _ _).parsing _).bind
  exact (hedges _).bind_pure

/-! ## Records of UI nodes -/

theorem reads_readRoot (root : Option Id) (ls : List (List Word)) :
    Reads readRoot ([], Line.words [.word uiHeader] :: Line.words [.optionalId root] :: ls) root
      ([], ls) := by
  apply (reads_nextLine _ _).bind
  apply (reads_keyword (by decide)).bind
  apply (reads_nextLine _ _).bind
  exact reads_optionalId root

/-- Reading a record takes up the lines that it counts. -/
theorem reads_readUiNode (hn : n.Legible values) (ls : List (List Word)) :
    Reads readUiNode ([], (uiLines values n).map Line.words ++ ls) (some (n.counted values))
      ([], (n.uncounted.map bindingLine).map Line.words ++ ls) := by
  have htag : n.kind.tag < UInt32.size := by cases n.kind <;> decide
  have hreturn : Reads
      (EarlyReturnT.return (some (n.counted values)) : EarlyReturnT _ Reading (Option UiNode))
      ([], (n.uncounted.map bindingLine).map Line.words ++ ls) (.error (some (n.counted values)))
      ([], (n.uncounted.map bindingLine).map Line.words ++ ls) := reads_pure _ _
  apply (reads_nextLine _ _).bind
  apply (reads_keyword (by decide)).bind
  apply (reads_unsigned _).bind
  rw [UInt32.toNat_ofNat_of_lt' htag, UiNodeKind.ofTag?_tag]
  apply (((reads_read hn ls).bind hreturn).caught _).bind
  exact reads_pure _ _

theorem resolves_counted (hn : resolves g n) : resolves g (n.counted values) := by
  simp only [resolves, Bool.and_eq_true, List.all_eq_true, id_counted] at hn ⊢
  exact ⟨hn.1, fun pin hpin => hn.2 pin ((pins_counted values n).subset hpin)⟩

/-- The record of a UI node that fits is taken in. -/
theorem readUiNodes_on_record {before : List UiNode} (hresolves : resolves g n)
    (hnew : ∀ m ∈ before, m.id ≠ n.id) (hn : n.Legible values) (k : Nat)
    {ls : List (List Word)} {r : Reader}
    (hr : r.page = ([], (uiLines values n).map Line.words ++ ls)) :
    ∃ r' : Reader, r'.page = ([], (n.uncounted.map bindingLine).map Line.words ++ ls) ∧
      (readUiNodes g before (k + 1)).on r =
        (readUiNodes g (before ++ [n.counted values]) k).on r' := by
  obtain ⟨r', hread, hr'⟩ := reads_readUiNode hn ls r hr
  refine ⟨r', hr', ?_⟩
  have hmore : r.atEnd = false := Reader.atEnd_eq_false (Prod.mk.inj hr).2
  have hfree : (before.any fun m => m.id == (n.counted values).id) = false := by
    rw [List.any_eq_false]
    intro m hm
    simpa using hnew m hm
  rw [readUiNodes, Attempt.on_bind_of_ok (Attempt.on_get r), hmore]
  refine (Attempt.on_bind_of_ok hread).trans ?_
  dsimp only
  rw [resolves_counted hresolves, hfree]
  rfl

/-- Further records leave alone what was taken in. -/
theorem readUiNodes_extends (g : Graph) (before : List UiNode) (k : Nat) :
    Attempt.Returns (readUiNodes g before k) (before <+: ·) := by
  induction k generalizing before with
  | zero => exact .pure List.prefix_rfl
  | succ k ih =>
      apply Attempt.Returns.bind
      intro r
      split
      · exact .pure List.prefix_rfl
      · apply Attempt.Returns.bind
        rintro (_ | m)
        · exact ih before
        · dsimp only
          split
          · intro s nodes t hnodes
            exact (List.prefix_append before [m]).trans (ih _ s nodes t hnodes)
          · exact ih before

/-- Records of different UI nodes that fit the graph all come out just if their inputs can be
counted. -/
theorem readUiNodes_eq_iff {before nodes : List UiNode} (hresolves : ∀ n ∈ nodes, resolves g n)
    (hnodup : (nodes.map UiNode.id).Nodup) (hnew : ∀ n ∈ nodes, ∀ m ∈ before, m.id ≠ n.id)
    (hlegible : ∀ n ∈ nodes, n.Legible values) {r : Reader}
    (hr : r.page = ([], (nodes.flatMap (uiLines values)).map Line.words)) :
    ((readUiNodes g before nodes.length).on r).1 = .ok (before ++ nodes.map (recorded values)) ↔
      ∀ n ∈ nodes, n.bindings.length < UInt32.size := by
  induction nodes generalizing before r with
  | nil =>
      rw [List.map_nil, List.append_nil]
      exact iff_of_true rfl (by simp)
  | cons n nodes ih =>
      obtain ⟨hn, hresolves⟩ := List.forall_mem_cons.1 hresolves
      obtain ⟨hid, hnodup⟩ := List.nodup_cons.1 hnodup
      obtain ⟨hne, hnew⟩ := List.forall_mem_cons.1 hnew
      obtain ⟨hl, hlegible⟩ := List.forall_mem_cons.1 hlegible
      rw [List.flatMap_cons, List.map_append] at hr
      obtain ⟨r', hr', hstep⟩ := readUiNodes_on_record hn hne hl nodes.length hr
      rw [List.length_cons, hstep, List.forall_mem_cons]
      by_cases hcount : n.bindings.length < UInt32.size
      · rw [uncounted_eq_nil hcount] at hr'
        have happend : before ++ (n :: nodes).map (recorded values) =
            (before ++ [n.recorded values]) ++ nodes.map (recorded values) := by simp
        rw [counted_eq_iff.2 hcount, and_iff_right hcount, happend]
        refine ih hresolves hnodup ?_ hlegible hr'
        intro m hm k hk
        rcases List.mem_append.1 hk with hk | hk
        · exact hnew m hm k hk
        · obtain rfl := List.mem_singleton.1 hk
          rw [id_recorded]
          exact fun heq => hid (heq ▸ List.mem_map_of_mem hm)
      · -- the draw node is taken in with fewer inputs, and stays so
        refine iff_of_false (fun hall => ?_) fun h => hcount h.1
        have hextends := readUiNodes_extends _ _ _ _ _ _ (Prod.ext hall rfl)
        rw [List.map_cons, List.prefix_append_right_inj] at hextends
        exact hcount (counted_eq_iff.1 (List.cons_prefix_cons.1 hextends).1)

/-! ## The whole document -/

/-- A document whose text can be read: its tables fit together, and all in it has a record. -/
structure Writable (d : Document) (values : ValueStore) : Prop where
  ordered : d.graph.Ordered
  resolves : ∀ n ∈ d.nodes, resolves d.graph n
  nodup : (d.nodes.map UiNode.id).Nodup
  recordable : ∀ n ∈ d.nodes, n.Recordable values

/-- A document each line of which can be read. The targets of its graph may stand in any order, and
inputs of draw nodes may be too many to count. -/
structure Legible (d : Document) (values : ValueStore) : Prop where
  consistent : d.graph.Consistent
  resolves : ∀ n ∈ d.nodes, resolves d.graph n
  nodup : (d.nodes.map UiNode.id).Nodup
  legible : ∀ n ∈ d.nodes, n.Legible values

variable {d : Document}

/-- The first line of a record has no empty words. -/
theorem plain_firstLine (values : ValueStore) (n : UiNode) :
    Line.Plain (.word uiWord :: .unsigned (.ofNat n.kind.tag) :: (n.record values).1) := by
  apply plain_of_word (by decide)
  intro s hs
  cases n <;> simp [record] at hs

theorem plain_record {l : Line} (hn : n.Legible values) (hl : l ∈ uiLines values n) :
    l.Plain := by
  rcases List.mem_cons.1 hl with rfl | hl
  · exact plain_firstLine values n
  · cases n with
    | draw d =>
        obtain ⟨b, hb, rfl⟩ := List.mem_map.1 hl
        exact plain_bindingLine (hn b hb)
    | binary | sine | time | constant | asset | primitive | camera | transform | renderTarget =>
        cases hl

theorem plain_graphLines {l : Line} (hl : l ∈ graphLines g) : l.Plain := by
  simp only [graphLines, List.cons_append, List.mem_cons, List.mem_append, List.mem_map] at hl
  rcases hl with rfl | rfl | rfl | ⟨p, _, rfl⟩ | rfl | ⟨e, _, rfl⟩
  · exact plain_of_word (by decide) fun _ ht => by cases ht
  · exact ⟨fun s hs => (by cases List.mem_singleton.1 hs), List.cons_ne_nil _ _⟩
  · exact plain_countLine _
  · exact plain_of_word (by decide) (by simp)
  · exact plain_countLine _
  · exact plain_of_word (by decide) (by simp)

theorem plain_rootLine (root : Option Id) : Line.Plain [.optionalId root] := by
  refine ⟨fun s hs => (by cases List.mem_singleton.1 hs), ?_⟩
  cases root <;> exact List.cons_ne_nil _ _

theorem Legible.plain (h : d.Legible values) : ∀ l ∈ d.lines values, l.Plain := by
  intro l hl
  simp only [lines, List.mem_append, List.mem_cons, List.mem_flatMap] at hl
  rcases hl with hl | rfl | rfl | rfl | ⟨n, hn, hl⟩
  · exact plain_graphLines hl
  · exact plain_of_word (by decide) fun _ ht => by cases ht
  · exact plain_rootLine d.root
  · exact plain_countLine _
  · exact plain_record (h.legible n hn) hl

theorem Legible.length_nodes (h : d.Legible values) : d.nodes.length < UInt32.size := by
  rw [← List.length_map UiNode.id]
  apply Graph.length_lt_size h.nodup
  intro id hid
  obtain ⟨n, hn, rfl⟩ := List.mem_map.1 hid
  have hresolves := h.resolves n hn
  simp only [Document.resolves, Bool.and_eq_true] at hresolves
  apply h.consistent.node_lt
  rw [Graph.hasNode_eq]
  exact Option.isSome_of_any hresolves.1

theorem resolves_rebuild (g : Graph) (n : UiNode) : Document.resolves g.rebuild n =
    Document.resolves g n := by
  simp only [Document.resolves, Graph.node?, Graph.nodes_rebuild]

/-- Reading the text of a document makes its graph anew and comes to the records of UI nodes. -/
theorem Legible.parse_render (h : d.Legible values) : ∃ r : Reader,
    r.page = ([], (d.nodes.flatMap (uiLines values)).map Line.words) ∧
      parse (d.render values) =
        (((readUiNodes d.graph.rebuild [] d.nodes.length).on r).1.mapError PersistError.parse).map
          fun nodes =>
            { graph := d.graph.rebuild
              root := d.root.filter d.graph.hasNode
              nodes := nodes } := by
  have hpage := Reader.page_ofText_of_plain h.plain
  simp only [lines, List.map_append, List.map_cons] at hpage
  obtain ⟨r₁, hgraph, hr₁⟩ := reads_readGraph h.consistent _ _ hpage
  obtain ⟨r₂, hroot, hr₂⟩ := (reads_readRoot _ _).parsing PersistError.parse _ hr₁
  have hlength := reads_readCount h.length_nodes
  obtain ⟨r₃, hcount, hr₃⟩ := (hlength _ _).parsing PersistError.parse _ hr₂
  refine ⟨r₃, hr₃, ?_⟩
  have hnode : d.graph.rebuild.hasNode = d.graph.hasNode := by
    funext id
    rw [Graph.hasNode, Graph.hasNode, Graph.nodes_rebuild]
  have hload : load.on (Reader.ofText (d.render values)) =
      (parsing (readUiNodes d.graph.rebuild [] d.nodes.length) >>= fun nodes => pure
        { graph := d.graph.rebuild
          root := d.root.filter d.graph.rebuild.hasNode
          nodes := nodes }).on r₃ :=
    (Attempt.on_bind_of_ok hgraph).trans
      ((Attempt.on_bind_of_ok hroot).trans (Attempt.on_bind_of_ok hcount))
  rw [parse, hload, hnode, Attempt.on_bind, parsing, Attempt.on_zoom]
  cases (readUiNodes d.graph.rebuild [] d.nodes.length).on r₃ with
  | mk result r => cases result <;> rfl

/-- Reading the text of a document gives the document again, its graph made anew, just if the inputs
of its draw nodes can be counted. -/
theorem Legible.parse_render_iff (h : d.Legible values) :
    parse (d.render values) = .ok
        { graph := d.graph.rebuild
          root := d.root.filter d.graph.hasNode
          nodes := d.nodes.map (recorded values) } ↔
      ∀ n ∈ d.nodes, n.bindings.length < UInt32.size := by
  have hresolves : ∀ n ∈ d.nodes, Document.resolves d.graph.rebuild n := fun n hn =>
    (resolves_rebuild d.graph n).trans (h.resolves n hn)
  have hnew : ∀ n ∈ d.nodes, ∀ m ∈ ([] : List UiNode), m.id ≠ n.id := by simp
  obtain ⟨r, hr, hparse⟩ := h.parse_render
  rw [hparse, ← readUiNodes_eq_iff hresolves h.nodup hnew h.legible hr, List.nil_append]
  cases ((readUiNodes d.graph.rebuild [] d.nodes.length).on r).1 with
  | error e => simp [Except.mapError, Except.map]
  | ok nodes => simp [Except.mapError, Except.map]

/-- Whatever becomes of the UI nodes, the graph that is read is the one made anew. -/
theorem Legible.graph_of_parse_render (h : d.Legible values) {d' : Document}
    (hd' : parse (d.render values) = .ok d') : d'.graph = d.graph.rebuild := by
  obtain ⟨r, _, hparse⟩ := h.parse_render
  rw [hparse] at hd'
  cases hres : ((readUiNodes d.graph.rebuild [] d.nodes.length).on r).1 with
  | error e =>
      rw [hres] at hd'
      cases hd'
  | ok nodes =>
      rw [hres] at hd'
      cases hd'
      rfl

theorem Writable.legible (h : d.Writable values) : d.Legible values where
  consistent := h.ordered.consistent
  resolves := h.resolves
  nodup := h.nodup
  legible n hn := (recordable_iff.1 (h.recordable n hn)).1

/-- Reading the text of a document gives the document again. -/
theorem Writable.parse_render (h : d.Writable values) :
    parse (d.render values) = .ok
      { graph := { d.graph with outbox := [] }
        root := d.root.filter d.graph.hasNode
        nodes := d.nodes.map (recorded values) } := by
  have hcount : ∀ n ∈ d.nodes, n.bindings.length < UInt32.size := fun n hn =>
    (recordable_iff.1 (h.recordable n hn)).2
  rw [← h.ordered.consistent.rebuild_eq_iff.2 h.ordered.aligned]
  exact h.legible.parse_render_iff.2 hcount

end Document

end DrawGraph
