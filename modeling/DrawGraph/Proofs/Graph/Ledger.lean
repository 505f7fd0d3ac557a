import DrawGraph.Proofs.Graph.Cutting
import DrawGraph.Proofs.Graph.Issue

/-!
# The ledger of edges

A ledger is kept of the edges that calls make, put back and erase. The events that were taken and
those that still wait are, in order, one for each link that was made and one for each that was
erased, and the links there are come to what the ledger says.
-/

namespace DrawGraph

/-- The edge is a link from one node to another. -/
def Edge.joins (e : Edge) (source target : Id) : Bool :=
  e.isExternal && e.source == source && e.target == target

/-- What happens to an edge. -/
inductive Entry
  | made (e : Edge)
  | restored (e : Edge)
  | erased (e : Edge)
deriving DecidableEq, Repr

namespace Entry

def edge : Entry → Edge
  | made e | restored e | erased e => e

/-- The event that tells of an entry. Edges that are no links have none, nor has one put back. -/
def event? : Entry → Option Event
  | made e => if e.isExternal then some (.linkCreated e.source e.target) else none
  | restored _ => none
  | erased e => if e.isExternal then some (.linkDeleted e.source e.target) else none

def made? : Entry → Option Edge
  | made e => some e
  | restored _ => none
  | erased _ => none

def restored? : Entry → Option Edge
  | made _ => none
  | restored e => some e
  | erased _ => none

def gained? : Entry → Option Edge
  | made e => some e
  | restored e => some e
  | erased _ => none

def lost? : Entry → Option Edge
  | made _ => none
  | restored _ => none
  | erased e => some e

variable (entries : List Entry) (source target : Id)

theorem countP_made : (entries.filterMap made?).countP (·.joins source target) =
    (entries.filterMap event?).count (.linkCreated source target) := by
  rw [List.countP_filterMap, List.count_eq_countP, List.countP_filterMap]
  refine List.countP_congr fun entry _ => ?_
  cases entry with
  | made e | restored e | erased e =>
      cases h : e.isExternal <;> simp [made?, event?, Edge.joins, h]

theorem countP_lost : (entries.filterMap lost?).countP (·.joins source target) =
    (entries.filterMap event?).count (.linkDeleted source target) := by
  rw [List.countP_filterMap, List.count_eq_countP, List.countP_filterMap]
  refine List.countP_congr fun entry _ => ?_
  cases entry with
  | made e | restored e | erased e =>
      cases h : e.isExternal <;> simp [lost?, event?, Edge.joins, h]

theorem countP_gained (p : Edge → Bool) : (entries.filterMap gained?).countP p =
    (entries.filterMap restored?).countP p + (entries.filterMap made?).countP p := by
  induction entries with
  | nil => rfl
  | cons entry entries ih =>
      cases entry with
      | made e | restored e =>
          simp only [made?, restored?, gained?, List.filterMap_cons, List.countP_cons, ih]
          omega
      | erased e => exact ih

theorem filterMap_event?_erased (es : List Edge) : (es.map erased).filterMap event? =
    (es.filter (·.isExternal)).map Edge.cutEvent := by
  induction es with
  | nil => rfl
  | cons e es ih => cases h : e.isExternal <;> simp [event?, Edge.cutEvent, h, ih]

theorem filterMap_erased (es : List Edge) :
    (es.map erased).filterMap lost? = es ∧ (es.map erased).filterMap gained? = [] := by
  constructor
  · rw [List.filterMap_map]
    exact List.filterMap_some
  · rw [List.filterMap_map]
    exact List.filterMap_eq_nil_iff.2 fun _ _ => rfl

end Entry

namespace Graph

variable {g g' g'' : Graph} {c : Edit} {cs : List Edit} {id : Id}

/-- The entries of a call. A call that fails has none; with a node go the edges that are there no
longer, in the order of their ids. -/
def entries (g : Graph) : Edit → List Entry
  | .addEdge source target kind =>
      (g.addEdge source target kind).toOption.toList.map fun p => .made ⟨p.1, source, target, kind⟩
  | .restoreEdge e => (g.restoreEdge e).toOption.toList.map fun _ => .restored e
  | .eraseEdge id => (g.eraseEdge id).toOption.toList.map fun p => .erased p.1
  | .eraseNode id => (g.eraseNode id).toOption.toList.flatMap fun p =>
      (g.edgeList.filter fun e => !p.2.hasEdge e.id).map .erased
  | _ => []

/-- The entries of calls, in their order. -/
def ledger (g : Graph) : List Edit → List Entry
  | [] => []
  | c :: cs => g.entries c ++ (g.edit c).ledger cs

/-- The event that a call takes. -/
def receives (g : Graph) : Edit → Option Event
  | .takeEvent => g.takeEvent.map Prod.fst
  | _ => none

/-- The events that calls take, in their order. -/
def received (g : Graph) : List Edit → List Event
  | [] => []
  | c :: cs => (g.receives c).toList ++ (g.edit c).received cs

/-- From `g` to `g'` the entries account for the events, of which `events` are taken, and for the
edges. -/
structure Accounts (g : Graph) (entries : List Entry) (events : List Event) (g' : Graph) :
    Prop where
  events : events ++ g'.outbox = g.outbox ++ entries.filterMap Entry.event?
  edges : (g'.edgeList ++ entries.filterMap Entry.lost?).Perm
    (g.edgeList ++ entries.filterMap Entry.gained?)

theorem Accounts.of_edges (hedges : g'.edges = g.edges) (events : List Event)
    (houtbox : events ++ g'.outbox = g.outbox) : g.Accounts [] events g' where
  events := houtbox.trans (List.append_nil _).symm
  edges := by
    rw [edgeList, hedges]
    exact .refl _

theorem Accounts.refl (g : Graph) : g.Accounts [] [] g := .of_edges rfl [] rfl

theorem Accounts.trans {entries entries' : List Entry} {events events' : List Event}
    (h : g.Accounts entries events g') (h' : g'.Accounts entries' events' g'') :
    g.Accounts (entries ++ entries') (events ++ events') g'' where
  events := by
    rw [List.append_assoc, h'.events, ← List.append_assoc, h.events, List.append_assoc,
      List.filterMap_append]
  edges := by
    rw [List.filterMap_append, List.filterMap_append]
    calc g''.edgeList ++
          (entries.filterMap Entry.lost? ++ entries'.filterMap Entry.lost?)
      _ |>.Perm ((g''.edgeList ++ entries'.filterMap Entry.lost?) ++
          entries.filterMap Entry.lost?) := by
        rw [List.append_assoc]
        exact List.perm_append_comm.append_left _
      _ |>.Perm ((g'.edgeList ++ entries.filterMap Entry.lost?) ++
          entries'.filterMap Entry.gained?) := by
        refine (h'.edges.append_right _).trans ?_
        rw [List.append_assoc, List.append_assoc]
        exact List.perm_append_comm.append_left _
      _ |>.Perm (g.edgeList ++
          (entries.filterMap Entry.gained? ++ entries'.filterMap Entry.gained?)) := by
        rw [← List.append_assoc]
        exact h.edges.append_right _

/-! ## One call -/

theorem Drops.accounts {es : List Edge} (h : g.Drops es g') :
    g.Accounts (es.map .erased) [] g' where
  events := by
    rw [Entry.filterMap_event?_erased]
    exact h.outbox
  edges := by
    obtain ⟨hlost, hgained⟩ := Entry.filterMap_erased es
    rw [hlost, hgained, List.append_nil]
    exact List.perm_append_comm.trans h.edges.symm

theorem accounts_addEdge {source target : Id} {kind : EdgeKind} (hc : g.Consistent)
    (h : g.addEdge source target kind = .ok (id, g')) :
    g.Accounts [.made ⟨id, source, target, kind⟩] [] g' := by
  obtain ⟨_, _, rfl, g₁, rfl, rfl⟩ := eq_of_addEdge h
  have hperm := edgeList_attach (e := ⟨g.nextId, source, target, kind⟩) hc.fresh.2
  have hgained := (hperm.trans (List.perm_append_singleton _ _).symm)
  rw [← List.append_nil (g.attach _).edgeList] at hgained
  cases kind with
  | internal => exact ⟨(List.append_nil _).symm, hgained⟩
  | external => exact ⟨rfl, hgained⟩

theorem accounts_restoreEdge {e : Edge} (h : g.restoreEdge e = .ok g') :
    g.Accounts [.restored e] [] g' := by
  obtain ⟨_, _, hnew, rfl⟩ := restoreEdge_eq_ok.1 h
  have hgained := (edgeList_attach hnew).trans (List.perm_append_singleton _ _).symm
  rw [← List.append_nil (g.attach e).edgeList] at hgained
  exact ⟨(List.append_nil _).symm, hgained⟩

/-- The edges that go with a node are those that touched it. -/
theorem Consistent.filter_eraseNode (hc : g.Consistent) {n : Node}
    (h : g.eraseNode id = .ok (n, g')) :
    g.edgeList.filter (fun e => !g'.hasEdge e.id) = g.edgeList.filter (·.touches id) := by
  refine List.filter_congr fun e he => ?_
  rw [hasEdge_eq, (hc.erasesNode h).edge?, hc.edge?_id he, Option.filter_some]
  cases e.touches id <;> rfl

theorem accounts_takeEvent (g : Graph) :
    g.Accounts [] (g.takeEvent.map Prod.fst).toList (g.takeEvent.elim g Prod.snd) := by
  unfold takeEvent
  split
  · exact .refl g
  · next event rest h => exact Accounts.of_edges (by rfl) [event] h.symm

theorem entries_of_error {err : GraphError} (h : g.attempt c = .error err) : g.entries c = [] := by
  cases c with
  | addEdge source target kind =>
      cases hadd : g.addEdge source target kind with
      | error err => rw [entries, hadd]; rfl
      | ok p => rw [attempt, hadd] at h; cases h
  | restoreEdge e =>
      rw [attempt] at h
      rw [entries, h]
      rfl
  | eraseEdge id =>
      cases herase : g.eraseEdge id with
      | error err => rw [entries, herase]; rfl
      | ok p => rw [attempt, herase] at h; cases h
  | eraseNode id =>
      cases herase : g.eraseNode id with
      | error err => rw [entries, herase]; rfl
      | ok p => rw [attempt, herase] at h; cases h
  | addNode | restoreNode | setValue | reserve | pushEvent | takeEvent | clear => rfl

theorem receives_of_error {err : GraphError} (h : g.attempt c = .error err) :
    g.receives c = none := by
  cases c with
  | takeEvent => cases h
  | _ => rfl

theorem Consistent.accounts_of_ok (hc : g.Consistent) (hclear : c ≠ .clear)
    (hpush : ∀ event, c ≠ .pushEvent event) (h : g.attempt c = .ok g') :
    g.Accounts (g.entries c) (g.receives c).toList g' := by
  cases c with
  | addEdge source target kind =>
      obtain ⟨id, hadd⟩ := exists_of_map_snd h
      rw [entries, hadd]
      exact accounts_addEdge hc hadd
  | restoreEdge e =>
      have hrestore : g.restoreEdge e = .ok g' := h
      rw [entries, hrestore]
      exact accounts_restoreEdge hrestore
  | eraseEdge id =>
      obtain ⟨e, herase⟩ := exists_of_map_snd h
      rw [entries, herase]
      exact (drops_eraseEdge herase).accounts
  | eraseNode id =>
      obtain ⟨n, herase⟩ := exists_of_map_snd h
      have hdrops := (hc.drops_eraseNode herase).accounts
      rw [← hc.filter_eraseNode herase] at hdrops
      rwa [entries, herase, Except.toOption, Option.toList_some, List.flatMap_singleton]
  | takeEvent =>
      cases h
      exact accounts_takeEvent g
  | addNode n =>
      obtain ⟨id, hadd⟩ := exists_of_map_snd h
      obtain ⟨_, _, rfl⟩ := eq_of_addNode hadd
      exact Accounts.of_edges (by rfl) [] (by rfl)
  | restoreNode id n =>
      obtain ⟨_, _, rfl⟩ := restoreNode_eq_ok.1 h
      exact Accounts.of_edges (by rfl) [] (by rfl)
  | setValue id x =>
      rw [setValue_eq_ok h]
      exact Accounts.of_edges (by rfl) [] (by rfl)
  | reserve next =>
      cases h
      exact Accounts.of_edges (by rfl) [] (by rfl)
  | pushEvent event => exact absurd rfl (hpush event)
  | clear => exact absurd rfl hclear

/-- Every call accounts for what it does, except that one may clear the graph and one may queue an
event of its own. -/
theorem Consistent.accounts (hc : g.Consistent) (hclear : c ≠ .clear)
    (hpush : ∀ event, c ≠ .pushEvent event) :
    g.Accounts (g.entries c) (g.receives c).toList (g.edit c) := by
  cases h : g.attempt c with
  | error err =>
      rw [edit_of_error h, entries_of_error h, receives_of_error h]
      exact .refl g
  | ok g' =>
      rw [edit_of_ok h]
      exact hc.accounts_of_ok hclear hpush h

/-- The entries of a call stand in the order of the ids. -/
theorem Consistent.pairwise_entries (hc : g.Consistent) (c : Edit) :
    (g.entries c).Pairwise fun x y => x.edge.id < y.edge.id := by
  have hone {α : Type} (x : Option α) (f : α → Entry) :
      (x.toList.map f).Pairwise fun x y => x.edge.id < y.edge.id := by cases x <;> simp
  cases c with
  | eraseNode id =>
      rw [entries]
      cases g.eraseNode id with
      | error err => exact .nil
      | ok p =>
          simp only [Except.toOption, Option.toList_some, List.flatMap_singleton]
          exact List.pairwise_map.2 ((pairwise_edgeList hc).filter _)
  | addEdge | restoreEdge | eraseEdge => exact hone _ _
  | addNode | restoreNode | setValue | reserve | pushEvent | takeEvent | clear => exact .nil

/-! ## Any calls -/

theorem Consistent.accounts_edits (hc : g.Consistent) (hclear : .clear ∉ cs)
    (hpush : ∀ event, .pushEvent event ∉ cs) :
    g.Accounts (g.ledger cs) (g.received cs) (g.edits cs) := by
  induction cs generalizing g with
  | nil => exact .refl g
  | cons c cs ih =>
      have hfirst := hc.accounts (c := c) (fun h => hclear (h ▸ List.mem_cons_self))
        fun event h => hpush event (h ▸ List.mem_cons_self)
      exact hfirst.trans <| ih (hc.edit c) (fun h => hclear (List.mem_cons_of_mem _ h))
        fun event h => hpush event (List.mem_cons_of_mem _ h)

/-- Unless calls clear the graph or queue events of their own, the events that they took and those
that wait are those of the ledger in its order; the entries of each call are in the order of the
ids, and a call that fails has none; and for each pair of nodes the links there are and the events
of links erased are as many as the links put back and the events of links made. -/
theorem ledger_balances (hclear : .clear ∉ cs) (hpush : ∀ event, .pushEvent event ∉ cs) :
    empty.received cs ++ (empty.edits cs).outbox =
        (empty.ledger cs).filterMap Entry.event? ∧
      (∀ before c after, cs = before ++ c :: after →
        ((empty.edits before).entries c).Pairwise (fun x y => x.edge.id < y.edge.id) ∧
        ∀ err, (empty.edits before).attempt c = .error err →
          (empty.edits before).entries c = []) ∧
      ∀ source target,
        (empty.edits cs).edgeList.countP (·.joins source target) +
            (empty.received cs ++ (empty.edits cs).outbox).count (.linkDeleted source target) =
          ((empty.ledger cs).filterMap Entry.restored?).countP (·.joins source target) +
            (empty.received cs ++ (empty.edits cs).outbox).count (.linkCreated source target) := by
  have haccounts := Consistent.empty.accounts_edits hclear hpush
  have hevents : empty.received cs ++ (empty.edits cs).outbox =
      (empty.ledger cs).filterMap Entry.event? := haccounts.events
  refine ⟨hevents, fun before c after _ => ⟨?_, fun err => entries_of_error⟩, ?_⟩
  · exact (Consistent.empty.edits before).pairwise_entries c
  · intro source target
    have hcount := haccounts.edges.countP_eq (·.joins source target)
    rw [List.countP_append, List.countP_append, Entry.countP_lost, Entry.countP_gained,
      Entry.countP_made] at hcount
    rw [hevents, hcount]
    exact Nat.zero_add _

/-- Two links between the same nodes, one of them erased and put back, a link from a node to itself
and one to another that go with the node, an edge that is no link, and a call that fails. -/
def churn : List Edit :=
  [.addNode ⟨.add, .none, 0⟩, .addNode ⟨.float, .output, 0⟩, .addNode ⟨.add, .none, 0⟩,
    .addEdge 0 1 .external, .addEdge 0 1 .external, .addEdge 2 2 .external,
    .addEdge 2 1 .external, .addEdge 2 1 .internal, .addEdge 0 9 .external, .takeEvent,
    .eraseEdge 3, .restoreEdge ⟨3, 0, 1, .external⟩, .eraseNode 2]

def churned : List Event :=
  [.linkCreated 0 1, .linkCreated 0 1, .linkCreated 2 2, .linkCreated 2 1, .linkDeleted 0 1,
    .linkDeleted 2 2, .linkDeleted 2 1]

theorem ledger_balances_churn : .clear ∉ churn ∧ (∀ event, .pushEvent event ∉ churn) ∧
    empty.received churn ++ (empty.edits churn).outbox = churned ∧
    (empty.edits churn).edgeList.countP (·.joins 0 1) + churned.count (.linkDeleted 0 1) =
      1 + churned.count (.linkCreated 0 1) := by
  have hclear : .clear ∉ churn := by simp [churn]
  have hpush (event : Event) : .pushEvent event ∉ churn := by simp [churn]
  have hledger : (empty.ledger churn).filterMap Entry.event? = churned := by decide +kernel
  have hrestored :
      ((empty.ledger churn).filterMap Entry.restored?).countP (·.joins 0 1) = 1 := by
    decide +kernel
  obtain ⟨hevents, _, hcount⟩ := ledger_balances hclear hpush
  have hpair := hcount 0 1
  rw [hrestored, hevents, hledger] at hpair
  exact ⟨hclear, hpush, hevents.trans hledger, hpair⟩

end Graph

end DrawGraph
