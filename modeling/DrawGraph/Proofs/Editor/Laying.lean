import DrawGraph.Proofs.Editor.Casting
import DrawGraph.Proofs.Graph.Order

/-!
# Graphs laid along a wiring

When ids run out half way, nodes stay behind that belong to no UI node, and so do the nodes of a UI
node whose record could not be read. A graph is laid along a wiring when it is that of the wiring as
far as the roles go. It is laid tightly when, besides, nodes with roles lead only to such, and a
node without a role to at most three others without roles, which lead nowhere.
-/

namespace DrawGraph

namespace Role

/-- The targets of a node with a role, where the output that an input is linked to may be anyone's
or nobody's. -/
def Heads (g : Graph) : Role → List Id → Prop
  | identity inputs _, ts => ts = inputs
  | input .., ts => ts = [] ∨ ∃ o n, ts = [o] ∧ g.node? o = some n ∧ n.direction = .output
  | output owner _, ts => ts = [owner]

/-- A node with a role is as the role says. -/
structure Lies (r : Role) (tight : Prop) (w : Wiring) (g : Graph) (id : Id) : Prop where
  node : ∃ n, g.node? id = some n ∧ r.Describes n
  heads : r.Heads g (g.neighbors id)
  belongs : r.Belongs w id
  inside : tight → ∀ m ∈ g.neighbors id, (w m).isSome

theorem Heads.mono {g g' : Graph} {r : Role} {ts : List Id} (h : r.Heads g ts)
    (hnode : ∀ j n, g.node? j = some n → ∃ n', g'.node? j = some n' ∧ n'.direction = n.direction) :
    r.Heads g' ts := by
  cases r with
  | identity inputs outputs => exact h
  | input owner kind =>
      rcases h with hnil | ⟨o, n, ho, hn, hdir⟩
      · exact Or.inl hnil
      · obtain ⟨n', hn', hdir'⟩ := hnode o n hn
        exact Or.inr ⟨o, n', ho, hn', hdir'.trans hdir⟩
  | output owner offer => exact h

end Role

/-- A node that no role is given to is left over. -/
structure Wiring.Strays (w : Wiring) (g : Graph) (id : Id) : Prop where
  few : (g.neighbors id).length ≤ 3
  idle : ∀ m ∈ g.neighbors id, w m = none ∧ g.neighbors m = []

/-- The graph is that of the wiring as far as the roles go. -/
structure Laid (tight : Prop) (w : Wiring) (g : Graph) : Prop where
  ordered : g.Ordered
  lies : ∀ id r, w id = some r → r.Lies tight w g id
  kind : ∀ i e r, g.edge? i = some e → w e.source = some r →
    (e.kind = .external ↔ ∃ owner kind, r = .input owner kind)
  stray : tight → ∀ id, w id = none → w.Strays g id

namespace Laid

variable {tight : Prop} {w w' : Wiring} {g g₁ g' : Graph} {id owner pin : Id}
  {inputs outputs : List Id}

theorem empty : Laid tight (fun _ => none) .empty where
  ordered := .empty
  lies _ _ h := by cases h
  kind _ _ _ _ h := by cases h
  stray _ id _ := by
    have hnil : Graph.empty.neighbors id = [] := by simp [Graph.empty, Graph.neighbors]
    constructor <;> simp [hnil]

theorem coherent (h : Laid tight w g) : w.Coherent := fun id r hr => (h.lies id r hr).belongs

theorem hasNode (h : Laid tight w g) {r : Role} (hw : w id = some r) : g.hasNode id := by
  obtain ⟨n, hn, _⟩ := (h.lies id r hw).node
  rw [Graph.hasNode_eq, hn]
  rfl

theorem eq_none (h : Laid tight w g) (hn : g.hasNode id = false) : w id = none := by
  cases hw : w id with
  | none => rfl
  | some r =>
      rw [h.hasNode hw] at hn
      cases hn

/-- Only directions, types, targets and edges have a part in it. -/
theorem of_views (h : Laid tight w g) (ho : g'.Ordered)
    (hnode : ∀ j n, g.node? j = some n →
      ∃ n', g'.node? j = some n' ∧ n'.direction = n.direction ∧ n'.type = n.type)
    (hneighbors : ∀ j, g'.neighbors j = g.neighbors j) (hedge : ∀ i, g'.edge? i = g.edge? i) :
    Laid tight w g' where
  ordered := ho
  lies j r hr := by
    obtain ⟨⟨n, hn, hdescribes⟩, hheads, hbelongs, hinside⟩ := h.lies j r hr
    obtain ⟨n', hn', hdir, htype⟩ := hnode j n hn
    refine { node := ⟨n', hn', ?_⟩, heads := ?_, belongs := hbelongs, inside := ?_ }
    · cases r <;> simpa [Role.Describes, hdir, htype] using hdescribes
    · rw [hneighbors]
      apply hheads.mono
      intro k m hm
      obtain ⟨m', hm', hdir, _⟩ := hnode k m hm
      exact ⟨m', hm', hdir⟩
    · rw [hneighbors]
      exact hinside
  kind i e r he := h.kind i e r (hedge i ▸ he)
  stray ht j hj := by
    obtain ⟨hfew, hidle⟩ := h.stray ht j hj
    constructor
    · rwa [hneighbors]
    · simpa only [hneighbors] using hidle

theorem withOutbox (h : Laid tight w g) (events : List Event) :
    Laid tight w { g with outbox := events } :=
  h.of_views (h.ordered.withOutbox events) (fun _ n hn => ⟨n, hn, rfl, rfl⟩) (fun _ => rfl)
    fun _ => rfl

/-- A wiring that has grown, when the roles that are new or have changed are right. -/
theorem grow (h : Laid tight w g) (hgrow : w.Grows w') (ho : g'.Ordered)
    (hnew : ∀ j, g.hasNode j → w j = none → w' j = none)
    (hnode : ∀ j n, g.node? j = some n → g'.node? j = some n)
    (same : ∀ j, w' j = w j → g'.neighbors j = g.neighbors j)
    (other : ∀ j r, w' j = some r → w' j ≠ w j → r.Lies tight w' g' j)
    (edges : ∀ i e, g'.edge? i = some e → g.edge? i = some e ∨
      ∀ r, w' e.source = some r → (e.kind = .external ↔ ∃ owner kind, r = .input owner kind)) :
    Laid tight w' g' := by
  have hnone {j : Id} (hj : w' j = none) : w j = none := by
    cases hw : w j with
    | none => rfl
    | some r =>
        obtain ⟨r', hr', _⟩ := hgrow j r hw
        simp [hj] at hr'
  have hsome {j : Id} (hj : (w j).isSome) : (w' j).isSome := by
    obtain ⟨r, hr⟩ := Option.isSome_iff_exists.1 hj
    obtain ⟨r', hr', _⟩ := hgrow j r hr
    simp [hr']
  refine ⟨ho, ?_, ?_, ?_⟩
  · intro j r hr
    by_cases hj : w' j = w j
    · obtain ⟨⟨n, hn, hdescribes⟩, hheads, hbelongs, hinside⟩ := h.lies j r (hj.symm.trans hr)
      refine { node := ⟨n, hnode j n hn, hdescribes⟩, heads := ?_,
               belongs := hgrow.belongs hbelongs, inside := ?_ }
      · rw [same j hj]
        exact hheads.mono fun k m hm => ⟨m, hnode k m hm, rfl⟩
      · rw [same j hj]
        exact fun ht m hm => hsome (hinside ht m hm)
    · exact other j r hr hj
  · intro i e r' he hr'
    rcases edges i e he with he | he
    · cases hw : w e.source with
      | none =>
          rw [hnew _ (h.ordered.consistent.ends i e he).1 hw] at hr'
          cases hr'
      | some r =>
          obtain ⟨s, hs, hwithin⟩ := hgrow _ r hw
          obtain rfl := Option.some.inj (hr'.symm.trans hs)
          rw [h.kind i e r he hw]
          cases r with
          | identity inputs outputs =>
              obtain ⟨_, _, rfl, _⟩ := hwithin
              simp
          | input owner kind =>
              obtain rfl : r' = _ := hwithin
              rfl
          | output owner offer =>
              obtain rfl : r' = _ := hwithin
              rfl
    · exact he r' hr'
  · intro ht j hj
    obtain ⟨hfew, hidle⟩ := h.stray ht j (hnone hj)
    rw [← same j (hj.trans (hnone hj).symm)] at hfew hidle
    refine ⟨hfew, fun m hm => ?_⟩
    obtain ⟨hm', hnil⟩ := hidle m hm
    rw [same j (hj.trans (hnone hj).symm)] at hm
    have hstill := hnew m (h.ordered.consistent.hasNode_of_mem_neighbors hm).2 hm'
    exact ⟨hstill, by rw [same m (hstill.trans hm'.symm), hnil]⟩

/-- A node that gets no role stays apart. -/
theorem addsNode (h : Laid tight w g) {n : Node} (ha : g.AddsNode n id g') : Laid tight w g' := by
  refine h.grow (fun j r hr => ⟨r, hr, .refl r⟩) (h.ordered.addsNode ha) (fun _ _ hj => hj) ?_
    (fun j _ => ha.neighbors j) (fun j r hr hj => absurd rfl hj)
    fun i e he => Or.inl (by rwa [ha.edge?] at he)
  intro j m hm
  rw [ha.node?, if_neg, hm]
  rintro rfl
  have hfresh := ha.fresh
  rw [Graph.hasNode_eq, hm] at hfresh
  cases hfresh

/-- A new node leads nowhere and nothing leads to it. -/
theorem addsNode_apart (h : Laid tight w g) {n : Node} (ha : g.AddsNode n pin g₁) :
    g.neighbors pin = [] ∧ ∀ j, pin ∉ g.neighbors j := by
  refine ⟨h.ordered.consistent.neighbors_eq_nil ha.fresh, fun j hmem => ?_⟩
  have hlive := (h.ordered.consistent.hasNode_of_mem_neighbors hmem).2
  rw [ha.fresh] at hlive
  cases hlive

theorem node?_addsNode {n : Node} (ha : g.AddsNode n pin g₁) {j : Id} {m : Node}
    (hm : g.node? j = some m) : g₁.node? j = some m := by
  rw [ha.node?, if_neg, hm]
  rintro rfl
  have hfresh := ha.fresh
  rw [Graph.hasNode_eq, hm] at hfresh
  cases hfresh

theorem addIdentity (h : Laid tight w g) {n : Node} (ha : g.AddsNode n id g')
    (hdir : n.direction = .none) (htype : n.type ≠ .value) :
    Laid tight (w.withIdentity id) g' := by
  have hw : w id = none := h.eq_none ha.fresh
  have hself : w.withIdentity id id = some (.identity [] []) := Function.update_self ..
  have hne {j : Id} (hj : j ≠ id) : w.withIdentity id j = w j := Function.update_of_ne hj ..
  have hnil : g'.neighbors id = [] := (ha.neighbors id).trans (h.addsNode_apart ha).1
  refine h.grow (Wiring.grows_withIdentity hw) (h.ordered.addsNode ha) ?_
    (fun _ _ => node?_addsNode ha) (fun j _ => ha.neighbors j) ?_
    fun i e he => Or.inl (by rwa [ha.edge?] at he)
  · intro j hlive hj
    rw [hne, hj]
    rintro rfl
    rw [ha.fresh] at hlive
    cases hlive
  · intro j r hr hj
    obtain rfl : j = id := by
      by_contra hji
      exact hj (hne hji)
    obtain rfl := Option.some.inj (hself.symm.trans hr)
    exact { node := ⟨n, by rw [ha.node?, if_pos rfl], hdir, htype⟩, heads := hnil,
            belongs := ⟨List.nodup_nil, by simp, by simp⟩, inside := by simp [hnil] }

theorem withPin_eq_none {r s s' : Role} {n : Node} (ha : g.AddsNode n pin g₁)
    (ho : w owner = some s) {j : Id} (hlive : g.hasNode j) (hj : w j = none) :
    w.withPin owner s' pin r j = none := by
  have hjp : j ≠ pin := by
    rintro rfl
    rw [ha.fresh] at hlive
    cases hlive
  have hjo : j ≠ owner := by
    rintro rfl
    simp [ho] at hj
  rw [Wiring.withPin_of_ne hjp hjo, hj]

/-- A pin with its internal edge, when the pin lies as its role says and its owner has the targets
of an identity that belongs. -/
theorem addPin (h : Laid tight w g) (ho : w owner = some (.identity inputs outputs))
    {inputs' outputs' : List Id} {r : Role}
    (hgrow : w.Grows (w.withPin owner (.identity inputs' outputs') pin r)) {n : Node}
    (ha : g.AddsNode n pin g₁) {e : Edge} (he : g₁.AddsEdge e g')
    (hmiss : e.target ∉ g.neighbors e.source)
    (hsource : e.source = pin ∨ e.source = owner ∧ inputs' ≠ inputs)
    (hpin : r.Lies tight (w.withPin owner (.identity inputs' outputs') pin r) g' pin)
    (hheads : g'.neighbors owner = inputs')
    (hbelongs : (Role.identity inputs' outputs').Belongs
      (w.withPin owner (.identity inputs' outputs') pin r) owner)
    (hkind : ∀ q, w.withPin owner (.identity inputs' outputs') pin r e.source = some q →
      (e.kind = .external ↔ ∃ owner kind, q = .input owner kind)) :
    Laid tight (w.withPin owner (.identity inputs' outputs') pin r) g' := by
  have hw : w pin = none := h.eq_none ha.fresh
  have hnode (j : Id) (m : Node) (hm : g.node? j = some m) : g'.node? j = some m := by
    rw [he.node?]
    exact node?_addsNode ha hm
  refine h.grow hgrow ((h.ordered.addsNode ha).addsEdge he (by rwa [ha.neighbors]))
    (fun j => withPin_eq_none ha ho) hnode
    (fun j hj => (Wiring.neighbors_withPin hw ho ha he hsource hj).2) ?_ ?_
  · intro j q hq hj
    rcases Wiring.withPin_cases hq hj with ⟨rfl, rfl⟩ | ⟨_, rfl, rfl⟩
    · exact hpin
    · obtain ⟨m, hm, hdescribes⟩ := (h.lies j _ ho).node
      refine { node := ⟨m, hnode j m hm, hdescribes⟩, heads := hheads, belongs := hbelongs,
               inside := fun _ i hi => ?_ }
      obtain ⟨k, hk⟩ := hbelongs.2.1 i (hheads ▸ hi)
      simp [hk]
  · intro i e' hi
    rw [he.edge?] at hi
    split at hi
    · obtain rfl := Option.some.inj hi
      exact Or.inr hkind
    · rw [ha.edge?] at hi
      exact Or.inl hi

theorem addInput (h : Laid tight w g) (ho : w owner = some (.identity inputs outputs))
    {n : Node} (ha : g.AddsNode n pin g₁) (hdir : n.direction = .input) {edge : Id}
    (he : g₁.AddsEdge ⟨edge, owner, pin, .internal⟩ g') (kind : ValueKind) :
    Laid tight (w.withInput owner inputs outputs pin kind) g' := by
  have hw : w pin = none := h.eq_none ha.fresh
  obtain ⟨hnil, hmiss⟩ := h.addsNode_apart ha
  have hne : owner ≠ pin := by
    rintro rfl
    simp [hw] at ho
  have howner : w.withInput owner inputs outputs pin kind owner =
      some (.identity (inputs ++ [pin]) outputs) := Wiring.withPin_owner hne
  have hgrow := Wiring.grows_withInput hw ho kind
  have hpin : g'.neighbors pin = [] := by rw [he.neighbors, if_neg hne.symm, ha.neighbors, hnil]
  have hheads : g'.neighbors owner = inputs ++ [pin] := by
    rw [he.neighbors, if_pos rfl, ha.neighbors,
      show g.neighbors owner = inputs from (h.lies owner _ ho).heads]
  refine h.addPin ho hgrow ha he (hmiss _) (Or.inr ⟨rfl, by simp⟩) ?_ hheads
    (h.coherent.append_input ho hgrow hw Wiring.withPin_pin) ?_
  · exact { node := ⟨n, by rw [he.node?, ha.node?, if_pos rfl], hdir⟩, heads := Or.inl hpin,
            belongs := ⟨_, _, howner, by simp⟩, inside := by simp [hpin] }
  · intro q hq
    obtain rfl := Option.some.inj (howner.symm.trans hq)
    simp

theorem addOutput (h : Laid tight w g) (ho : w owner = some (.identity inputs outputs))
    {n : Node} (ha : g.AddsNode n pin g₁) (hdir : n.direction = .output) {edge : Id}
    (he : g₁.AddsEdge ⟨edge, pin, owner, .internal⟩ g') (offer : Offer) :
    Laid tight (w.withOutput owner inputs outputs pin offer) g' := by
  have hw : w pin = none := h.eq_none ha.fresh
  obtain ⟨hnil, _⟩ := h.addsNode_apart ha
  have hne : owner ≠ pin := by
    rintro rfl
    simp [hw] at ho
  have howner : w.withOutput owner inputs outputs pin offer owner =
      some (.identity inputs (outputs ++ [pin])) := Wiring.withPin_owner hne
  have hgrow := Wiring.grows_withOutput hw ho offer
  have hpin : g'.neighbors pin = [owner] := by
    rw [he.neighbors, if_pos rfl, ha.neighbors, hnil, List.nil_append]
  have hheads : g'.neighbors owner = inputs := by
    rw [he.neighbors, if_neg hne, ha.neighbors]
    exact (h.lies owner _ ho).heads
  refine h.addPin ho hgrow ha he (by simp [hnil]) (Or.inl rfl) ?_ hheads
    (h.coherent.append_output ho hgrow Wiring.withPin_pin) ?_
  · exact { node := ⟨n, by rw [he.node?, ha.node?, if_pos rfl], hdir⟩, heads := hpin,
            belongs := ⟨_, _, howner, by simp⟩, inside := by simp [hpin, Wiring.withPin_owner hne] }
  · intro q hq
    obtain rfl := Option.some.inj (Wiring.withPin_pin.symm.trans hq)
    simp

theorem isSome_without {m : Id} (hm : (w m).isSome) (hne : m ≠ id) : (w.without id m).isSome := by
  rwa [Wiring.without_of_ne w hne, Option.isSome_map]

/-- A pin, or an identity without pins, can be taken away. -/
theorem erase (h : Laid tight w g) {r : Role} (hr : w id = some r) (hbare : r.Bare)
    (he : g.ErasesNode id g') : Laid tight (w.without id) g' := by
  refine ⟨h.ordered.erasesNode he, ?_, ?_, ?_⟩
  · intro j r' hr'
    obtain ⟨hji, s, hj, rfl⟩ := Wiring.of_without_eq_some hr'
    obtain ⟨⟨n, hn, hdescribes⟩, hheads, _, hinside⟩ := h.lies j s hj
    have hneighbors : g'.neighbors j = (g.neighbors j).filter (· ≠ id) := by
      rw [he.neighbors, if_neg hji]
    refine { node := ⟨n, by rw [he.node?, if_neg hji, hn], ?_⟩, heads := ?_,
             belongs := h.coherent.without hr hbare hji hj, inside := ?_ }
    · cases s <;> exact hdescribes
    · rw [hneighbors]
      cases s with
      | identity inputs outputs => exact congrArg (List.filter (· ≠ id)) hheads
      | input owner kind =>
          rcases hheads with hnil | ⟨o, m, ho, hm, hdir⟩
          · exact Or.inl (by rw [hnil, List.filter_nil])
          · by_cases hoi : o = id
            · exact Or.inl (by rw [ho, hoi]; simp)
            · refine Or.inr ⟨o, m, by rw [ho]; simp [hoi], ?_, hdir⟩
              rw [he.node?, if_neg hoi, hm]
      | output owner offer =>
          obtain ⟨inputs, outputs, ho, hmem⟩ := h.coherent.output hj
          have hoi : owner ≠ id := Wiring.Coherent.ne_of_bare hr hbare ho (Or.inr hmem)
          rw [show g.neighbors j = [owner] from hheads]
          show [owner].filter (· ≠ id) = [owner]
          simp [hoi]
    · intro ht m hm
      rw [hneighbors] at hm
      obtain ⟨hm, hne⟩ := List.mem_filter.1 hm
      exact isSome_without (hinside ht m hm) (of_decide_eq_true hne)
  · intro i e r' hi hr'
    rw [he.edge?] at hi
    obtain ⟨hi, _⟩ := Option.filter_eq_some_iff.1 hi
    obtain ⟨_, s, hs, rfl⟩ := Wiring.of_without_eq_some hr'
    rw [h.kind i e s hi hs]
    cases s <;> simp [Role.drop]
  · intro ht j hj
    have hnil {m : Id} (hm : g.neighbors m = []) : g'.neighbors m = [] := by
      rw [he.neighbors, hm, List.filter_nil, ite_self]
    by_cases hji : j = id
    · have hgone : g'.neighbors j = [] := by rw [he.neighbors, if_pos hji]
      constructor <;> simp [hgone]
    · rw [Wiring.without_of_ne w hji, Option.map_eq_none_iff] at hj
      obtain ⟨hfew, hidle⟩ := h.stray ht j hj
      have hneighbors : g'.neighbors j = (g.neighbors j).filter (· ≠ id) := by
        rw [he.neighbors, if_neg hji]
      constructor
      · rw [hneighbors]
        exact le_trans (List.length_filter_le ..) hfew
      · intro m hm
        rw [hneighbors] at hm
        obtain ⟨hm, hne⟩ := List.mem_filter.1 hm
        obtain ⟨hw, hm⟩ := hidle m hm
        exact ⟨by rw [Wiring.without_of_ne w (of_decide_eq_true hne), hw]; rfl, hnil hm⟩

/-- An input without a link may be linked to an output. -/
theorem link (h : Laid tight w g) {i o edge : Id} {kind : ValueKind} {n : Node}
    (hi : w i = some (.input owner kind)) (hn : g.node? o = some n) (hdir : n.direction = .output)
    (ho : tight → (w o).isSome) (hnil : g.neighbors i = [])
    (he : g.AddsEdge ⟨edge, i, o, .external⟩ g') : Laid tight w g' := by
  have hneighbors (j : Id) : g'.neighbors j = if j = i then [o] else g.neighbors j := by
    rw [he.neighbors]
    split
    · next hj => rw [hj, hnil, List.nil_append]
    · rfl
  have hother {j : Id} (hj : w j = none) : g'.neighbors j = g.neighbors j := by
    rw [hneighbors, if_neg]
    rintro rfl
    simp [hi] at hj
  refine ⟨h.ordered.addsEdge he (by rw [hnil]; exact List.not_mem_nil), ?_, ?_, ?_⟩
  · intro j r hr
    obtain ⟨⟨m, hm, hdescribes⟩, hheads, hbelongs, hinside⟩ := h.lies j r hr
    refine { node := ⟨m, by rw [he.node?, hm], hdescribes⟩, heads := ?_, belongs := hbelongs,
             inside := ?_ }
    · rw [hneighbors]
      split
      · next hj =>
        subst hj
        obtain rfl := Option.some.inj (hi.symm.trans hr)
        exact Or.inr ⟨o, n, rfl, by rw [he.node?, hn], hdir⟩
      · exact hheads.mono fun k m hm => ⟨m, by rw [he.node?, hm], rfl⟩
    · intro ht m hm
      rw [hneighbors] at hm
      split at hm
      · obtain rfl := List.mem_singleton.1 hm
        exact ho ht
      · exact hinside ht m hm
  · intro k e r hk hr
    rw [he.edge?] at hk
    split at hk
    · obtain rfl := Option.some.inj hk
      obtain rfl := Option.some.inj (hi.symm.trans hr)
      simp
    · exact h.kind k e r hk hr
  · intro ht j hj
    obtain ⟨hfew, hidle⟩ := h.stray ht j hj
    rw [← hother hj] at hfew hidle
    refine ⟨hfew, fun m hm => ?_⟩
    obtain ⟨hm, hnil⟩ := hidle m hm
    exact ⟨hm, (hother hm).trans hnil⟩

theorem unlink (h : Laid tight w g) {k : Id} {e : Edge} (hk : g.edge? k = some e)
    (hx : e.kind = .external) (he : g.ErasesEdge e g') : Laid tight w g' := by
  have hsub (j : Id) : (g'.neighbors j).Sublist (g.neighbors j) := by
    rw [he.neighbors]
    split
    · exact List.erase_sublist
    · exact .refl _
  refine ⟨h.ordered.erasesEdge hk he, ?_, ?_, ?_⟩
  · intro j r hr
    obtain ⟨⟨m, hm, hdescribes⟩, hheads, hbelongs, hinside⟩ := h.lies j r hr
    refine { node := ⟨m, by rw [he.node?, hm], hdescribes⟩, heads := ?_, belongs := hbelongs,
             inside := fun ht m hm => hinside ht m ((hsub j).subset hm) }
    rw [he.neighbors]
    split
    · next hj =>
      subst hj
      obtain ⟨owner, kind, rfl⟩ := (h.kind k e r hk hr).1 hx
      rcases hheads with hnil | ⟨o, n, ho, hn, hdir⟩
      · exact Or.inl (by rw [hnil]; rfl)
      · rw [ho, List.erase_cons]
        split
        · exact Or.inl rfl
        · exact Or.inr ⟨o, n, rfl, by rw [he.node?, hn], hdir⟩
    · exact hheads.mono fun k m hm => ⟨m, by rw [he.node?, hm], rfl⟩
  · intro i f r hf hr
    rw [he.edge?] at hf
    split at hf
    · cases hf
    · exact h.kind i f r hf hr
  · intro ht j hj
    obtain ⟨hfew, hidle⟩ := h.stray ht j hj
    refine ⟨le_trans (hsub j).length_le hfew, fun m hm => ?_⟩
    obtain ⟨hm, hnil⟩ := hidle m ((hsub j).subset hm)
    have hnone := hsub m
    rw [hnil, List.sublist_nil] at hnone
    exact ⟨hm, hnone⟩

/-- Roles may be given up, as long as no identity loses only some of its pins. -/
theorem forget (h : Laid tight w' g) (hsub : ∀ j r, w j = some r → w' j = some r)
    (hco : w.Coherent) (hinside : tight → ∀ j, (w j).isSome → ∀ m ∈ g.neighbors j, (w m).isSome)
    (hstray : tight → ∀ j, w j = none → w.Strays g j) : Laid tight w g where
  ordered := h.ordered
  lies j r hr := by
    obtain ⟨hnode, hheads, _, _⟩ := h.lies j r (hsub j r hr)
    exact ⟨hnode, hheads, hco j r hr, fun ht => hinside ht j (by rw [hr]; rfl)⟩
  kind i e r he hr := h.kind i e r he (hsub _ r hr)
  stray := hstray

/-- Nodes that had roles before a new identity came lead to such nodes still, when the identity has
no outputs. -/
theorem inside_of_recast {g₀ : Graph} (h : Laid tight w' g) (hco : w.Coherent) (hid : w id = none)
    (hr : Wiring.Recast id w g₀ w' g) (hout : ∀ j offer, w' j ≠ some (.output id offer))
    (ht : tight) {j m : Id} {r : Role} (hj : w j = some r) (hm : m ∈ g.neighbors j) :
    (w m).isSome := by
  have hlies := h.lies j r (hr.keeps hco hid hj)
  have hheads := hlies.heads
  cases r with
  | identity inputs outputs =>
      rw [show g.neighbors j = inputs from hheads] at hm
      obtain ⟨kind, hk⟩ := (hco.identity hj).2.1 m hm
      simp [hk]
  | input owner kind =>
      rcases hheads with hnil | ⟨o, n, ho, hn, hdir⟩
      · simp [hnil] at hm
      · obtain rfl : m = o := by simpa [ho] using hm
        -- an output that an input leads to is none of the new identity's
        obtain ⟨r', hr'⟩ := Option.isSome_iff_exists.1 (hlies.inside ht m hm)
        obtain ⟨n', hn', hdescribes⟩ := (h.lies m r' hr').node
        obtain rfl := Option.some.inj (hn.symm.trans hn')
        cases r' with
        | identity inputs outputs => simp [Role.Describes, hdir] at hdescribes
        | input owner kind => simp [Role.Describes, hdir] at hdescribes
        | output p offer =>
            have hp : p ≠ id := by
              rintro rfl
              exact hout m offer hr'
            simp [(hr.output_iff hp).2 hr']
  | output owner offer =>
      obtain rfl : m = owner := by
        simpa [show g.neighbors j = [owner] from hheads] using hm
      obtain ⟨_, _, ho, _⟩ := hco.output hj
      simp [ho]

/-- A new identity without outputs can be forgotten with its pins, when they would be left over. -/
theorem forget_recast {g₀ : Graph} (h : Laid tight w' g) (hco : w.Coherent) (hid : w id = none)
    (hr : Wiring.Recast id w g₀ w' g) (hout : ∀ j offer, w' j ≠ some (.output id offer))
    (hown : ∀ j r, w' j = some r → r.home j = id → w.Strays g j) : Laid tight w g := by
  refine h.forget (fun _ _ => hr.keeps hco hid) hco ?_ ?_
  · intro ht j hj m hm
    obtain ⟨r, hw⟩ := Option.isSome_iff_exists.1 hj
    exact h.inside_of_recast hco hid hr hout ht hw hm
  · intro ht j hj
    cases hw : w' j with
    | none =>
        obtain ⟨hfew, hidle⟩ := h.stray ht j hw
        exact ⟨hfew, fun m hm => ⟨hr.eq_none hco hid (hidle m hm).1, (hidle m hm).2⟩⟩
    | some r =>
        refine hown j r hw ?_
        by_contra hne
        exact absurd (hj.symm.trans ((hr.elsewhere j r hne).2 hw)) nofun

end Laid

end DrawGraph
