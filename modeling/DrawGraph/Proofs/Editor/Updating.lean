import DrawGraph.Proofs.Editor.Timekeeping

/-!
# What an update does

Each input that is still there takes over what is linked to it, and the order of the turns matters
for what time nodes are linked to only. Beside the boxes an update changes the inputs for variables
of the draw nodes that find another shader.
-/

namespace DrawGraph

open DrawGraph.Graph

namespace Editor

variable {w : Wiring} {e x : Editor} {n m : UiNode} {o i : Id} {done order : List UiNode}
  {dt : Float32}

/-- What an input of `n` takes from an output of `m` in an update from `e` to `x`: what is stored
there all the time, or, from a time node, the time if it has had its turn before `n`, and else what
it held before. This is the old time if the time node has been told it. -/
inductive Supplies (e x : Editor) (order : List UiNode) (m n : UiNode) (o : Id) : Value → Prop
  | stored {v : Value} (hkind : m.kind ≠ .time) (hold : e.values.get? o = some v)
      (hnew : x.values.get? o = some v) : Supplies e x order m n o v
  | ticked (hkind : m.kind = .time) (horder : [m, n].Sublist order) :
      Supplies e x order m n o (.float x.clock.elapsed)
  | stale {v : Value} (hkind : m.kind = .time) (horder : [n, m].Sublist order)
      (hold : e.values.get? o = some v) (hclock : Told m e → v = .float e.clock.elapsed) :
      Supplies e x order m n o v

/-- What an update does, with the turns in the given order. A new node that no draw node has for a
variable is one that was left without its edge when ids ran out. -/
structure Updates (e : Editor) (dt : Float32) (order : List UiNode) (x : Editor) : Prop where
  clock : x.clock = e.clock.advance (dt * e.settings.timeScale)
  linked : ∀ n ∈ e.nodes, ∀ i ∈ n.inputs, x.graph.hasNode i → ∀ o ∈ e.graph.neighbors i,
    x.graph.neighbors i = [o] ∧ ∃ m ∈ e.nodes, o ∈ m.outputs ∧ ∃ u v,
      e.values.get? i = some u ∧ Supplies e x order m n o v ∧
        x.values.get? i = some ((v.coerce u.kind).getD u)
  unlinked : ∀ n ∈ e.nodes, ∀ i ∈ n.inputs, x.graph.hasNode i → e.graph.neighbors i = [] →
    x.graph.neighbors i = [] ∧ x.values.get? i = e.values.get? i
  output : ∀ n ∈ e.nodes, ∀ o ∈ n.outputs, x.graph.hasNode o ∧
    x.values.get? o = if n.kind = .time then some (.float x.clock.elapsed) else e.values.get? o
  nodes : ∀ m ∈ x.nodes, m ∈ e.nodes ∨ ∃ d d', Rebuilds order e.scene x d d' ∧ m = .draw d'
  external : ∀ k f, x.graph.edge? k = some f → f.kind = .external → e.graph.edge? k = some f
  removed : ∀ j, e.graph.hasNode j →
    x.graph.hasNode j ∨ ∃ d, Reshades order e.scene x d ∧ j ∈ d.params
  added : ∀ j, x.graph.hasNode j →
    e.graph.hasNode j ∨ ∃ d d', Rebuilds order e.scene x d d' ∧ (j ∈ d'.params ∨ j + 1 = lastId)
  cut : ∀ k f, e.graph.edge? k = some f → x.graph.edge? k = some f ∨
    ∃ d, Reshades order e.scene x d ∧ (f.source ∈ d.params ∨ f.target ∈ d.params)
  drawn : ∀ k f, x.graph.edge? k = some f → e.graph.edge? k = some f ∨
    ∃ d d', Rebuilds order e.scene x d d' ∧ ∃ p ∈ d'.params, f = ⟨k, d.id, p, .internal⟩

/-- Nothing is linked to the input but outputs of other UI nodes than time nodes. -/
def Timeless (e : Editor) (i : Id) : Prop :=
  ∀ m ∈ e.nodes, m.kind = .time → ∀ o ∈ m.outputs, o ∉ e.graph.neighbors i

theorem Midway.supplies (hx : (e.tick dt).Midway order x) {before after : List UiNode}
    (hsplit : order = before ++ n :: after) (hmem : m ∈ order) (hi : i ∈ n.inputs)
    (hm : m ∈ e.nodes) (ho : o ∈ m.outputs) {v : Value}
    (hv : (e.tick dt).given before m o = some v) : Supplies e x order m n o v := by
  unfold given at hv
  by_cases hkind : m.kind = .time
  · by_cases hbefore : m ∈ before
    · rw [if_pos ⟨hbefore, hkind⟩, ← hx.clock] at hv
      obtain rfl := Option.some.inj hv
      refine .ticked hkind ?_
      rw [hsplit]
      exact (List.singleton_sublist.2 hbefore).append
        (List.singleton_sublist.2 List.mem_cons_self)
    · rw [if_neg fun hand => hbefore hand.1] at hv
      have hne : m ≠ n := by
        rintro rfl
        obtain ⟨_, _, rfl⟩ := UiNode.eq_time_of_kind hkind
        cases hi
      have hafter : m ∈ after := by
        rw [hsplit] at hmem
        rcases List.mem_append.1 hmem with hm | hm
        · exact absurd hm hbefore
        · exact (List.mem_cons.1 hm).resolve_left hne
      refine .stale hkind ?_ hv ?_
      · rw [hsplit]
        exact ((List.singleton_sublist.2 hafter).cons_cons n).trans
          (List.sublist_append_right before _)
      · exact fun htold => Option.some.inj (hv.symm.trans (htold.clocked hkind o ho))
  · rw [if_neg fun hand => hkind hand.2] at hv
    have hstill := hx.output m hm o ho
    rw [given, if_neg fun hand => hkind hand.2] at hstill
    exact .stored hkind hv (hstill.trans hv)

theorem Ran.updates_turns (h : Ran e) (dt : Float32) (horder : order.Perm e.nodes) :
    e.Updates dt order ((e.tick dt).turns order) := by
  obtain ⟨w, hheld⟩ := h.held
  have htick : (e.tick dt).Held True w := ⟨hheld.laid, hheld.casts, hheld.bus⟩
  have hx := h.midway dt horder
  generalize (e.tick dt).turns order = x at hx ⊢
  have hdone : ∀ m ∈ order, m ∈ (e.tick dt).nodes := fun m hm => horder.mem_iff.1 hm
  have hreceives {n : UiNode} (hn : n ∈ e.nodes) {i : Id} (hi : i ∈ n.inputs)
      (hlive : x.graph.hasNode i) : ∃ before after, order = before ++ n :: after ∧
        (e.tick dt).Receives before i (x.values.get? i) := by
    obtain ⟨before, after, hsplit⟩ := List.append_of_mem (horder.mem_iff.2 hn)
    exact ⟨before, after, hsplit, hx.taken before n after hsplit i hi hlive⟩
  have hgone {j : Id} (hj : e.graph.hasNode j) (hno : x.graph.hasNode j = false) :
      ∃ d, Reshades order e.scene x d ∧ j ∈ d.params :=
    (hx.refits.lost j hj).resolve_left (by simp [hno])
  constructor
  case clock => exact hx.clock
  case linked =>
    intro n hn i hi hlive o ho
    obtain ⟨before, after, hsplit, _, hlinked⟩ := hreceives hn hi hlive
    obtain ⟨m, hm, hout, u, v, hu, hv, hbox⟩ := hlinked o ho
    have hlink := (htick.producer hn hi ho).1
    exact ⟨(hx.neighbors_eq htick hdone hn hi hlive).trans hlink, m, hm, hout, u, v, hu,
      hx.supplies hsplit (horder.mem_iff.2 hm) hi hm hout hv, hbox⟩
  case unlinked =>
    intro n hn i hi hlive hnil
    obtain ⟨_, _, _, hunlinked, _⟩ := hreceives hn hi hlive
    exact ⟨(hx.neighbors_eq htick hdone hn hi hlive).trans hnil, hunlinked hnil⟩
  case output =>
    intro n hn o ho
    refine ⟨hx.hasNode_output htick hdone hn ho, (hx.output n hn o ho).trans ?_⟩
    simp only [given, horder.mem_iff.2 hn, true_and, hx.clock]
    rfl
  case nodes => exact hx.nodes
  case external =>
    intro k f hf hkind
    rcases hx.refits.drawn k f hf with hf | ⟨owner, p, _, rfl⟩
    · exact hf
    · cases hkind
  case removed => exact fun j hj => hx.refits.lost j hj
  case added => exact fun j hj => (hx.refits.made j hj).imp_right And.right
  case cut =>
    intro k f hf
    obtain ⟨hsource, htarget⟩ := hheld.consistent.ends k f hf
    rcases hx.refits.cut k f hf with hf | hno | hno
    · exact Or.inl hf
    · obtain ⟨d, hd, hmem⟩ := hgone hsource hno
      exact Or.inr ⟨d, hd, Or.inl hmem⟩
    · obtain ⟨d, hd, hmem⟩ := hgone htarget hno
      exact Or.inr ⟨d, hd, Or.inr hmem⟩
  case drawn =>
    intro k f hf
    refine (hx.refits.drawn k f hf).imp_right ?_
    rintro ⟨_, p, ⟨d, d', hd, rfl, hp⟩, rfl⟩
    exact ⟨d, d', hd, p, hp, rfl⟩

/-- Whatever the order of the turns, an input that no time node is linked to comes to hold the
same. -/
theorem Updates.agree {x' : Editor} {order' : List UiNode} (hx : e.Updates dt order x)
    (hx' : e.Updates dt order' x') (hn : n ∈ e.nodes) (hi : i ∈ n.inputs) (htimeless : e.Timeless i)
    (hlive : x.graph.hasNode i) (hlive' : x'.graph.hasNode i) :
    x.values.get? i = x'.values.get? i := by
  have hstored {x : Editor} {order : List UiNode} (hx : e.Updates dt order x)
      (hlive : x.graph.hasNode i) {o : Id} (ho : o ∈ e.graph.neighbors i) :
      x.values.get? i = (e.values.get? i).bind fun u =>
        (e.values.get? o).map fun v => (v.coerce u.kind).getD u := by
    obtain ⟨_, m, hm, hout, u, v, hu, hv, hbox⟩ := hx.linked n hn i hi hlive o ho
    cases hv with
    | stored _ hold _ => rw [hbox, hu, Option.bind_some, hold, Option.map_some]
    | ticked hkind => exact absurd ho (htimeless m hm hkind o hout)
    | stale hkind => exact absurd ho (htimeless m hm hkind o hout)
  cases hlink : e.graph.neighbors i with
  | nil =>
      rw [(hx.unlinked n hn i hi hlive hlink).2, (hx'.unlinked n hn i hi hlive' hlink).2]
  | cons o os =>
      have ho : o ∈ e.graph.neighbors i := hlink ▸ List.mem_cons_self
      rw [hstored hx hlive ho, hstored hx' hlive' ho]

/-- An update lets each input that is still there take over what is linked to it, and the order of
the turns matters for what time nodes are linked to only. -/
theorem Ran.updates (h : Ran e) (dt : Float32) : e.Updates dt e.nodes (e.update dt) ∧
    ∀ order, order.Perm e.nodes → ∀ n ∈ e.nodes, ∀ i ∈ n.inputs, e.Timeless i →
      ((e.tick dt).turns order).graph.hasNode i → (e.update dt).graph.hasNode i →
        ((e.tick dt).turns order).values.get? i = (e.update dt).values.get? i := by
  have hu : e.Updates dt e.nodes (e.update dt) := h.updates_turns dt (.refl e.nodes)
  exact ⟨hu, fun order horder n hn i hi htimeless hlive hlive' =>
    (h.updates_turns dt horder).agree hu hn hi htimeless hlive hlive'⟩

/-- A sine that a time node is linked to, and a draw node that does not know yet which shader it is
linked to. -/
def unread : Editor :=
  [.addNode .time, .addNode .sine, .link 4 1, .addNode .shader, .addNode .draw, .link 13 10,
    .setAsset 9 (some "lamp")].foldl Operation.apply
    (.new { shaders := lampLibrary [⟨"tint", "float3"⟩] })

/-- A sine that a time node is linked to that was added later, and that an update has told the
time. -/
def informed : Editor :=
  [.addNode .sine, .addNode .time, .update 1, .link 6 1].foldl Operation.apply .new

/-- In its turn the sine finds the time that it is now, and the draw node gets an input for the
variable of the lamp. Where the turn of the time node comes later, the sine finds the time that it
was. -/
theorem updates_unread : Ran unread ∧ unread.Updates 1 unread.nodes (unread.update 1) ∧
    (unread.update 1).values.get? 4 = some (.float 1) ∧
    (unread.update 1).values.get? 13 = some (.int 1) ∧
    unread.graph.hasNode 20 = false ∧ (unread.update 1).graph.hasNode 20 ∧
    informed.Updates 1 informed.nodes (informed.update 1) ∧ Told (.time 5 6) informed ∧
    (informed.update 1).values.get? 1 = some (.float 1) ∧
    (informed.update 1).clock.elapsed = 2 := by
  have hran : Ran unread := .foldl (.new _ _) _
  have hbefore : Ran ([.addNode .sine, .addNode .time].foldl Operation.apply .new) :=
    .foldl (.new _ _) _
  have htold : Told (.time 5 6) informed :=
    (Told.tell hbefore (.update 1) trivial (by decide +kernel)).keep (.link 6 1) id
      (by decide +kernel)
  exact ⟨hran, (hran.updates 1).1, by decide +kernel, by decide +kernel, by decide +kernel,
    by decide +kernel, (htold.ran.updates 1).1, htold, by decide +kernel, by decide +kernel⟩

/-- A sine that a time node is linked to that was added later. -/
def late : Editor :=
  [.addNode .sine, .update 1, .addNode .time, .link 6 1].foldl Operation.apply .new

/-- The sine takes over neither the time that it was nor the time that it is, as the time node has
had no turn yet. -/
theorem late_takes_initial : Ran late ∧ ¬ ∀ n ∈ late.nodes, ∀ i ∈ n.inputs,
    (late.update 1).graph.hasNode i → ∀ m ∈ late.nodes, m.kind = .time → ∀ o ∈ m.outputs,
      o ∈ late.graph.neighbors i → ∀ u, late.values.get? i = some u → ∃ c : Float32,
        (c = late.clock.elapsed ∨ c = (late.update 1).clock.elapsed) ∧
          (late.update 1).values.get? i = some (((Value.float c).coerce u.kind).getD u) := by
  refine ⟨.foldl (.new _ _) _, fun hall => ?_⟩
  have hbox : (late.update 1).values.get? 1 = some (.float 0) := by decide +kernel
  obtain ⟨c, hc, htaken⟩ := hall (.sine 0 1 3) (by decide +kernel) 1 (by decide)
    (by decide +kernel) (.time 5 6) (by decide +kernel) rfl 6 (by decide) (by decide +kernel)
    (.float 0) (by decide +kernel)
  obtain rfl : c = 0 := by
    exact Value.float.inj (Option.some.inj (htaken.symm.trans hbox))
  revert hc
  decide +kernel

end Editor

end DrawGraph
