import DrawGraph.Proofs.Editor.Opened
import DrawGraph.Proofs.Graph.Edit
import Mathlib.Data.List.Duplicate

/-!
# Removing UI nodes that share pins

A document that is read may list one pin in several UI nodes, or twice in one. Pins are dropped one
after another, so a UI node that lists a pin twice cannot drop it the second time: it is gone from
the editor then, but its identity stays in the graph.
-/

namespace DrawGraph

namespace Scene

variable {s : Scene}

/-- Dropping stops at a node that is not there, perhaps since it was dropped just before. -/
theorem eraseOwned_ensures (hc : s.graph.Consistent) (ids : List Id) :
    (eraseOwned ids).Ensures s
      (fun err _ => ∃ p, err = .nodeNotFound p ∧
        (List.Duplicate p ids ∨ p ∈ ids ∧ s.graph.hasNode p = false))
      fun _ _ => ids.Nodup ∧ ∀ p ∈ ids, s.graph.hasNode p := by
  induction ids generalizing s with
  | nil => exact Attempt.ensures_pure ⟨List.nodup_nil, fun _ hp => nomatch hp⟩
  | cons id ids ih =>
      rw [eraseOwned]
      refine Attempt.ensures_modify_bind ?_
      have herase : (onGraph (·.eraseNode id)).Ensures { s with values := s.values.erase id }
          (fun err _ => err = .nodeNotFound id ∧ s.graph.hasNode id = false) fun _ t =>
            s.graph.hasNode id ∧ s.graph.ErasesNode id t.graph := by
        refine onGraph_ensures (fun err herr => (hc.eraseNode_eq_error_iff.1 herr).symm) ?_
        intro n g hok
        refine ⟨?_, hc.erasesNode hok⟩
        cases hlive : s.graph.hasNode id with
        | true => rfl
        | false =>
            have hfail := hc.eraseNode_eq_error_iff.2 ⟨hlive, rfl⟩
            cases hok.symm.trans hfail
      refine (herase.mono_error ?_).bind ?_
      · rintro _ _ ⟨rfl, hgone⟩
        exact ⟨id, rfl, Or.inr ⟨List.mem_cons_self, hgone⟩⟩
      rintro _ t ⟨hlive, herases⟩
      have hother {p : Id} (hne : p ≠ id) : t.graph.hasNode p = s.graph.hasNode p := by
        rw [Graph.hasNode_eq, herases.node?, if_neg hne, Graph.hasNode_eq]
      have hself : t.graph.hasNode id = false := by
        rw [Graph.hasNode_eq, herases.node?, if_pos rfl]
        rfl
      refine (ih herases.consistent).mono ?_ ?_
      · rintro _ _ ⟨p, rfl, hdup | ⟨hp, hgone⟩⟩
        · exact ⟨p, rfl, Or.inl (hdup.duplicate_cons id)⟩
        · -- the one that is missing may be the one just dropped, come again
          by_cases heq : p = id
          · subst heq
            exact ⟨p, rfl, Or.inl hp.duplicate_cons_self⟩
          · exact ⟨p, rfl, Or.inr ⟨List.mem_cons_of_mem _ hp, hother heq ▸ hgone⟩⟩
      · rintro _ _ ⟨hnodup, hall⟩
        have hnew : id ∉ ids := fun hmem => Bool.eq_false_iff.1 hself (hall id hmem)
        refine ⟨List.nodup_cons.2 ⟨hnew, hnodup⟩, List.forall_mem_cons.2 ⟨hlive, ?_⟩⟩
        intro p hp
        exact hother (fun heq => hnew (heq ▸ hp)) ▸ hall p hp

end Scene

/-- A UI node can be removed just if its pins are there and none is listed twice. Otherwise it fails
before it drops its identity. -/
theorem UiNode.onDelete_ensures {s : Scene} {n : UiNode} (hc : s.graph.Consistent)
    (hid : s.graph.facing n.id = some .none) (hself : n.id ∉ n.pins) :
    n.onDelete.Ensures s
      (fun err t => s.graph.Alters (· ∈ n.pins) t.graph ∧ ∃ p, err = .nodeNotFound p ∧
        (List.Duplicate p n.pins ∨ p ∈ n.pins ∧ s.graph.hasNode p = false))
      fun _ _ => n.pins.Nodup ∧ ∀ p ∈ n.pins, s.graph.hasNode p := by
  have hmoves : Scene.Moves (fun _ => False) (· ∈ n.pins) s ((Scene.eraseOwned n.pins).on s).2 :=
    Scene.moves_eraseOwned (fun _ hp => hp) s
  have halters := hmoves.alters hc
  have hdrop := Scene.eraseOwned_ensures hc n.pins
  unfold onDelete
  cases hx : (Scene.eraseOwned n.pins).on s with
  | mk r t =>
      rw [hx] at halters
      cases r with
      | error err =>
          rw [Attempt.Ensures, Attempt.on_bind_of_error hx]
          exact ⟨halters, hdrop.of_error hx⟩
      | ok _ =>
          refine Attempt.ensures_bind_of_ok hx ?_
          have hlive : t.graph.hasNode n.id := by
            have hbefore : s.graph.hasNode n.id := Graph.hasNode_of_facing hid
            rwa [halters.hasNode_eq (hc.node_lt _ hbefore) hself]
          refine (Scene.eraseOwned_ensures halters.consistent [n.id]).mono ?_ ?_
          · rintro err u ⟨p, rfl, hdup | ⟨hp, hgone⟩⟩
            · exact absurd hdup (List.not_duplicate_singleton p n.id)
            · rw [List.mem_singleton.1 hp] at hgone
              exact absurd hlive (Bool.eq_false_iff.1 hgone)
          · exact fun _ _ _ => hdrop.of_ok hx

namespace Editor

variable {e : Editor} {n : UiNode}

/-- A UI node is gone from the editor, but its identity is still a node of the graph. -/
structure HalfGone (e : Editor) (id : Id) : Prop where
  unknown : e.node? id = none
  live : e.graph.hasNode id

theorem ownerOf_id (e : Editor) (hn : n ∈ e.nodes) : e.ownerOf n.id = some n.id := by
  have hany : e.nodes.any (·.id == n.id) = true :=
    List.any_eq_true.2 ⟨n, hn, beq_self_eq_true n.id⟩
  rw [ownerOf, if_pos hany]

theorem ownerOf_of_ne {id : Id} (h : ∀ n ∈ e.nodes, n.id ≠ id) :
    e.ownerOf id = (e.nodes.find? (·.pins.contains id)).map UiNode.id := by
  have hnone : ¬ e.nodes.any (·.id == id) = true := by
    intro hany
    obtain ⟨n, hn, heq⟩ := List.any_eq_true.1 hany
    exact h n hn (beq_iff_eq.1 heq)
  rw [ownerOf, if_neg hnone]

namespace Rooted

theorem removeNode_or (h : e.Rooted) (hn : n ∈ e.nodes) :
    (e.removeNode n.id).1 = .ok () ∧ n.pins.Nodup ∧ (∀ p ∈ n.pins, e.graph.hasNode p) ∨
      (e.removeNode n.id).2.HalfGone n.id ∧
        ∃ p, (e.removeNode n.id).1 = .error (.graph (.nodeNotFound p)) ∧
          (List.Duplicate p n.pins ∨ p ∈ n.pins ∧ e.graph.hasNode p = false) := by
  have hdelete := UiNode.onDelete_ensures h.consistent (h.identity n hn) (h.id_ne_pin hn hn)
  have hfind : e.node? n.id = some n := UiNode.find?_id h.nodup hn
  unfold removeNode
  rw [hfind]
  dsimp only
  cases hx : n.onDelete.on e.scene with
  | mk r s =>
      cases r with
      | ok _ => exact Or.inl ⟨rfl, hdelete.of_ok hx⟩
      | error err =>
          obtain ⟨halters, p, rfl, hp⟩ := hdelete.of_error hx
          refine Or.inr ⟨⟨?_, ?_⟩, p, rfl, hp⟩
          · have hout : n.id ∉ (e.dismiss n s).nodes.map UiNode.id := by
              simp [Editor.dismiss]
            rw [← map_id_drain] at hout
            refine List.find?_eq_none.2 fun m hm => ?_
            have hne : m.id ≠ n.id := fun heq => hout (heq ▸ List.mem_map_of_mem hm)
            simpa using hne
          · have hleft : Outlives (fun _ => False) e (e.dismiss n s) :=
              h.dismiss_of_alters hn halters (fun _ hj => Or.inr hj) fun _ hj => hj.elim
            exact hleft.drain.stays n.id (h.id_lt hn) (h.hasNode_id hn)
              (fun m hm => h.id_ne_pin hn hm) id

theorem removeNode_ok (h : e.Rooted) (hn : n ∈ e.nodes) (hnodup : n.pins.Nodup)
    (hlive : ∀ p ∈ n.pins, e.graph.hasNode p) : (e.removeNode n.id).1 = .ok () := by
  rcases h.removeNode_or hn with ⟨hok, _⟩ | ⟨_, p, _, hdup | ⟨hp, hgone⟩⟩
  · exact hok
  · exact absurd hnodup hdup.not_nodup
  · exact absurd (hlive p hp) (Bool.eq_false_iff.1 hgone)

/-- A pin that no other UI node lists tells its UI node. -/
theorem ownerOf_pin (h : e.Rooted) (hn : n ∈ e.nodes) {p : Id} (hp : p ∈ n.pins)
    (hone : ∀ m ∈ e.nodes, p ∈ m.pins → m = n) : e.ownerOf p = some n.id := by
  have hne : ∀ m ∈ e.nodes, m.id ≠ p := fun m hm heq => h.id_ne_pin hm hn (heq.symm ▸ hp)
  have hfound : (e.nodes.find? (·.pins.contains p)).isSome :=
    List.find?_isSome.2 ⟨n, hn, List.contains_iff_mem.2 hp⟩
  obtain ⟨m, hm⟩ := Option.isSome_iff_exists.1 hfound
  have hmem : p ∈ m.pins := by simpa using List.find?_some hm
  rw [ownerOf_of_ne hne, hm, hone m (List.mem_of_find?_eq_some hm) hmem]
  rfl

/-- All UI nodes can be removed and told apart by their pins just if they share none. -/
theorem nodup_iff (h : e.Rooted) (hlive : ∀ n ∈ e.nodes, ∀ p ∈ n.pins, e.graph.hasNode p) :
    (e.nodes.flatMap fun n => n.id :: n.pins).Nodup ↔
      (∀ n ∈ e.nodes, (e.removeNode n.id).1 = .ok ()) ∧
        ∀ n ∈ e.nodes, ∀ p ∈ n.id :: n.pins, e.ownerOf p = some n.id := by
  have hids := List.pairwise_map.1 h.nodup
  rw [List.nodup_flatMap]
  constructor
  · rintro ⟨heach, hpairs⟩
    have : Std.Symm (Function.onFun List.Disjoint fun n : UiNode => n.id :: n.pins) :=
      ⟨fun _ _ hdisjoint => hdisjoint.symm⟩
    have hpins (n : UiNode) (hn : n ∈ e.nodes) := (List.nodup_cons.1 (heach n hn)).2
    refine ⟨fun n hn => h.removeNode_ok hn (hpins n hn) (hlive n hn), fun n hn => ?_⟩
    refine List.forall_mem_cons.2 ⟨ownerOf_id e hn, fun p hp => h.ownerOf_pin hn hp ?_⟩
    intro m hm hpm
    by_contra hne
    exact hpairs.forall hm hn hne (List.mem_cons_of_mem _ hpm) (List.mem_cons_of_mem _ hp)
  · rintro ⟨hremove, howner⟩
    constructor
    · intro n hn
      refine List.nodup_cons.2 ⟨h.id_ne_pin hn hn, ?_⟩
      rcases h.removeNode_or hn with ⟨_, hnodup, _⟩ | ⟨_, p, herror, _⟩
      · exact hnodup
      · cases (hremove n hn).symm.trans herror
    · refine hids.imp_of_mem fun hn hm hne p hpn hpm => hne ?_
      exact Option.some.inj ((howner _ hn p hpn).symm.trans (howner _ hm p hpm))

end Rooted

/-! ## After loading -/

theorem load_of_parse {text : String} {d : Document} (h : Document.parse text = .ok d)
    (e : Editor) : e.load text = (.ok (), ofDocument d e.scene.services e.settings) := by
  rw [Editor.load, h]

theorem ids_of_listing {ns ms : List UiNode} (h : ns.map listing = ms.map listing) :
    (ns.flatMap fun n => n.id :: n.pins) = ms.flatMap fun n => n.id :: n.pins := by
  have hids (ns : List UiNode) : (ns.flatMap fun n => n.id :: n.pins) =
      (ns.map listing).flatMap fun l => l.1 :: l.2 := by
    rw [List.flatMap_map]
    rfl
  rw [hids, h, ← hids]

/-- The identities that a text gives are each of one UI node and no pins. A UI node that was loaded
can be removed if it lists no pin twice, and else is half gone. But pins may be shared: all of them
can be removed and told apart just if the text gives each pin once. -/
theorem removeNode_load {text : String} {d : Document} (h : Document.parse text = .ok d)
    (e : Editor) :
    (d.nodes.map UiNode.id).Nodup ∧ (∀ n ∈ d.nodes, ∀ m ∈ d.nodes, n.id ∉ m.pins) ∧
      (∀ n ∈ d.nodes, n.pins.Nodup → ((e.load text).2.removeNode n.id).1 = .ok ()) ∧
      (∀ n ∈ d.nodes, ¬ n.pins.Nodup → ((e.load text).2.removeNode n.id).2.HalfGone n.id ∧
        ∃ p, List.Duplicate p n.pins ∧
          ((e.load text).2.removeNode n.id).1 = .error (.graph (.nodeNotFound p))) ∧
      ((d.nodes.flatMap fun n => n.id :: n.pins).Nodup ↔
        (∀ n ∈ d.nodes, ((e.load text).2.removeNode n.id).1 = .ok ()) ∧
          ∀ n ∈ d.nodes, ∀ p ∈ n.id :: n.pins, (e.load text).2.ownerOf p = some n.id) := by
  have hd := Document.parsed_of_parse h
  rw [load_of_parse h]
  dsimp only
  set e' := ofDocument d e.scene.services e.settings with he'
  have hrooted : e'.Rooted := (rooted_ofDocument hd _ _).1
  have hlist : e'.nodes.map listing = d.nodes.map listing := listings_ofDocument d _ _
  have hlive : ∀ n ∈ e'.nodes, ∀ p ∈ n.pins, e'.graph.hasNode p := by
    refine (forall_listing hlist (P := fun _ pins => ∀ p ∈ pins, e'.graph.hasNode p)).2 ?_
    intro n hn p hp
    obtain ⟨dir, hdir, _⟩ := (facing_of_resolves (hd.taken.resolves n hn)).2 p hp
    exact Graph.hasNode_of_facing ((facing_ofDocument d _ _ p).trans hdir)
  refine ⟨hd.taken.nodup, fun n hn m hm hmem => ?_, ?_, ?_, ?_⟩
  · obtain ⟨dir, hdir, hpin⟩ := (facing_of_resolves (hd.taken.resolves m hm)).2 n.id hmem
    rw [(facing_of_resolves (hd.taken.resolves n hn)).1] at hdir
    cases hdir
    cases hpin
  · refine (forall_listing hlist (P := fun id pins => pins.Nodup →
      (e'.removeNode id).1 = .ok ())).1 ?_
    exact fun n hn hnodup => hrooted.removeNode_ok hn hnodup (hlive n hn)
  · refine (forall_listing hlist (P := fun id pins => ¬ pins.Nodup →
      (e'.removeNode id).2.HalfGone id ∧ ∃ p, List.Duplicate p pins ∧
        (e'.removeNode id).1 = .error (.graph (.nodeNotFound p)))).1 ?_
    intro n hn hshared
    rcases hrooted.removeNode_or hn with ⟨_, hnodup, _⟩ | ⟨hgone, p, herror, hp⟩
    · exact absurd hnodup hshared
    · refine ⟨hgone, p, hp.resolve_right fun hdead => ?_, herror⟩
      exact Bool.eq_false_iff.1 hdead.2 (hlive n hn p hdead.1)
  · rw [← ids_of_listing hlist, hrooted.nodup_iff hlive]
    refine and_congr (forall_listing hlist (P := fun id _ => (e'.removeNode id).1 = .ok ())) ?_
    exact forall_listing hlist (P := fun id pins => ∀ p ∈ id :: pins, e'.ownerOf p = some id)

/-- A sine whose input is its output too. -/
def doubled : String :=
  "#graph\n2\n2\nn 0 4 0 0\nn 1 10 1 0\n0\n#ui_nodes\n-1\n1\nuin 2 0 1 1\n"

theorem removeNode_doubled : ∃ d, Document.parse doubled = .ok d ∧
    d.nodes.map listing = [(0, [1, 1])] ∧
      ((load {} doubled).2.removeNode 0).2.HalfGone 0 ∧
        ((load {} doubled).2.removeNode 0).1 = .error (.graph (.nodeNotFound 1)) := by
  have hread : (Document.parse doubled).toOption.map (fun d => d.nodes.map listing) =
      some [(0, [1, 1])] := by
    decide +kernel
  obtain ⟨d, hd, hlist⟩ : ∃ d, Document.parse doubled = .ok d ∧
      d.nodes.map listing = [(0, [1, 1])] := by
    cases h : Document.parse doubled with
    | ok d =>
        rw [h] at hread
        exact ⟨d, rfl, Option.some.inj hread⟩
    | error err =>
        rw [h] at hread
        cases hread
  obtain ⟨n, hn, heq⟩ : ∃ n ∈ d.nodes, listing n = (0, [1, 1]) :=
    List.mem_map.1 (hlist ▸ List.mem_cons_self)
  obtain ⟨hid, hpins⟩ := Prod.mk.inj heq
  obtain ⟨_, _, _, hshared, _⟩ := removeNode_load hd {}
  obtain ⟨hgone, p, hp, herror⟩ := hshared n hn (by rw [hpins]; decide)
  rw [hpins] at hp
  rw [hid] at hgone herror
  obtain rfl : p = 1 := by simpa using hp.mem
  exact ⟨d, hd, hlist, hgone, herror⟩

end Editor

end DrawGraph
