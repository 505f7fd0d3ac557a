import DrawGraph.Proofs.Editor.Wiring

/-!
# Changing a wiring

What the operations on graph and boxes do to the roles: nodes appear with their internal edge, pins
and bare identities disappear with all that touches them, links are made and cut, and boxes are
filled with values that their roles allow.
-/

namespace DrawGraph

namespace Role

/-- The identity that a node with a role is at: itself, or the owner of a pin. -/
def home (id : Id) : Role → Id
  | identity .. => id
  | input owner _ => owner
  | output owner _ => owner

/-- The role when a pin is gone. -/
def drop (pin : Id) : Role → Role
  | identity inputs outputs => identity (inputs.filter (· ≠ pin)) (outputs.filter (· ≠ pin))
  | r => r

/-- Nothing belongs to a node with this role. -/
def Bare (r : Role) : Prop :=
  ∀ inputs outputs, r = identity inputs outputs → inputs = [] ∧ outputs = []

end Role

/-- An edge closes no cycle when its target does not lead to its source. -/
theorem Graph.Acyclic.addsEdge {g g' : Graph} (h : g.Acyclic) {e : Edge} (he : g.AddsEdge e g')
    (hlead : ¬ g.Leads e.target e.source) : g'.Acyclic := by
  apply h.of_step_imp_or hlead
  intro a b hs
  rw [Step, he.neighbors] at hs
  split at hs
  · next ha =>
    rcases List.mem_append.1 hs with hs | hs
    · exact Or.inl hs
    · exact Or.inr ⟨ha, List.mem_singleton.1 hs⟩
  · exact Or.inl hs

namespace Wiring

def withIdentity (w : Wiring) (id : Id) : Wiring :=
  Function.update w id (some (.identity [] []))

/-- An identity in a new role, and one more pin. -/
def withPin (w : Wiring) (owner : Id) (s : Role) (pin : Id) (r : Role) : Wiring :=
  Function.update (Function.update w owner (some s)) pin (some r)

def withInput (w : Wiring) (owner : Id) (inputs outputs : List Id) (pin : Id) (kind : ValueKind) :
    Wiring :=
  w.withPin owner (.identity (inputs ++ [pin]) outputs) pin (.input owner kind)

def withOutput (w : Wiring) (owner : Id) (inputs outputs : List Id) (pin : Id) (offer : Offer) :
    Wiring :=
  w.withPin owner (.identity inputs (outputs ++ [pin])) pin (.output owner offer)

def without (w : Wiring) (id : Id) : Wiring :=
  fun j => if j = id then none else (w j).map (Role.drop id)

variable {w : Wiring} {id owner pin j : Id} {inputs outputs : List Id} {r s s' : Role}

@[simp] theorem withPin_pin : w.withPin owner s pin r pin = some r := Function.update_self ..

theorem withPin_owner (hne : owner ≠ pin) : w.withPin owner s pin r owner = some s := by
  rw [withPin, Function.update_of_ne hne, Function.update_self]

theorem withPin_of_ne (hj : j ≠ pin) (hjo : j ≠ owner) : w.withPin owner s pin r j = w j := by
  rw [withPin, Function.update_of_ne hj, Function.update_of_ne hjo]

/-- Only the pin and its owner have new roles. -/
theorem withPin_cases (hr : w.withPin owner s pin r j = some s')
    (hj : w.withPin owner s pin r j ≠ w j) :
    j = pin ∧ s' = r ∨ j ≠ pin ∧ j = owner ∧ s' = s := by
  by_cases hjp : j = pin
  · subst hjp
    exact Or.inl ⟨rfl, Option.some.inj (hr.symm.trans withPin_pin)⟩
  · have hjo : j = owner := by
      by_contra hjo
      exact hj (withPin_of_ne hjp hjo)
    subst hjo
    exact Or.inr ⟨hjp, rfl, Option.some.inj (hr.symm.trans (withPin_owner hjp))⟩

/-- Whoever has the old role has the old targets, when the new edge starts at the pin or at an owner
with a new input. -/
theorem neighbors_withPin {g g₁ g' : Graph} {inputs' outputs' : List Id} {n : Node} {e : Edge}
    (hpin : w pin = none) (ho : w owner = some (.identity inputs outputs))
    (ha : g.AddsNode n pin g₁) (he : g₁.AddsEdge e g')
    (hsource : e.source = pin ∨ e.source = owner ∧ inputs' ≠ inputs)
    (hj : w.withPin owner (.identity inputs' outputs') pin r j = w j) :
    j ≠ pin ∧ g'.neighbors j = g.neighbors j := by
  have hjp : j ≠ pin := by
    rintro rfl
    simp [hpin] at hj
  refine ⟨hjp, ?_⟩
  rw [he.neighbors, ha.neighbors, if_neg]
  rintro rfl
  obtain ⟨hjo, hchanged⟩ := hsource.resolve_left hjp
  rw [hjo, withPin_owner (hjo ▸ hjp), ho] at hj
  simp [hchanged] at hj

@[simp] theorem without_self (w : Wiring) (id : Id) : w.without id id = none := if_pos rfl

theorem without_of_ne (w : Wiring) (hj : j ≠ id) : w.without id j = (w j).map (Role.drop id) :=
  if_neg hj

theorem of_without_eq_some (h : w.without id j = some r) :
    j ≠ id ∧ ∃ s, w j = some s ∧ s.drop id = r := by
  have hj : j ≠ id := by
    rintro rfl
    simp at h
  rw [without_of_ne w hj] at h
  exact ⟨hj, Option.map_eq_some_iff.1 h⟩

theorem grows_withIdentity (hw : w id = none) : w.Grows (w.withIdentity id) := by
  intro j r hr
  have hj : j ≠ id := by
    rintro rfl
    simp [hw] at hr
  exact ⟨r, by rw [withIdentity, Function.update_of_ne hj, hr], .refl r⟩

theorem grows_withPin (hpin : w pin = none) (ho : w owner = some s) (hs : s.Within s') (r : Role) :
    w.Grows (w.withPin owner s' pin r) := by
  intro j q hq
  have hj : j ≠ pin := by
    rintro rfl
    simp [hpin] at hq
  by_cases hjo : j = owner
  · subst hjo
    obtain rfl := Option.some.inj (ho.symm.trans hq)
    exact ⟨s', withPin_owner hj, hs⟩
  · exact ⟨q, (withPin_of_ne hj hjo).trans hq, .refl q⟩

theorem grows_withInput (hpin : w pin = none) (ho : w owner = some (.identity inputs outputs))
    (kind : ValueKind) : w.Grows (w.withInput owner inputs outputs pin kind) :=
  grows_withPin hpin ho
    ⟨_, _, rfl, fun _ hi => List.mem_append_left _ hi, fun _ ho => ho⟩ _

theorem grows_withOutput (hpin : w pin = none) (ho : w owner = some (.identity inputs outputs))
    (offer : Offer) : w.Grows (w.withOutput owner inputs outputs pin offer) :=
  grows_withPin hpin ho
    ⟨_, _, rfl, fun _ hi => hi, fun _ ho => List.mem_append_left _ ho⟩ _

end Wiring

namespace Wiring.Coherent

variable {w w' : Wiring} {id owner pin : Id} {inputs outputs : List Id}

theorem append_input (h : w.Coherent)
    (ho : w owner = some (.identity inputs outputs)) (hgrow : w.Grows w') (hw : w pin = none)
    {kind : ValueKind} (hpin : w' pin = some (.input owner kind)) :
    (Role.identity (inputs ++ [pin]) outputs).Belongs w' owner := by
  obtain ⟨hnodup, hin, hout⟩ := h.identity ho
  refine ⟨?_, ?_, ?_⟩
  · refine List.nodup_append.2 ⟨hnodup, by simp, fun a hmem b hb => ?_⟩
    rintro rfl
    obtain rfl := List.mem_singleton.1 hb
    obtain ⟨k, hk⟩ := hin _ hmem
    simp [hw] at hk
  · intro i hi
    rcases List.mem_append.1 hi with hi | hi
    · obtain ⟨k, hk⟩ := hin i hi
      exact ⟨k, hgrow.input hk⟩
    · obtain rfl := List.mem_singleton.1 hi
      exact ⟨kind, hpin⟩
  · intro o hi
    obtain ⟨offer, hoffer⟩ := hout o hi
    exact ⟨offer, hgrow.output hoffer⟩

theorem append_output (h : w.Coherent)
    (ho : w owner = some (.identity inputs outputs)) (hgrow : w.Grows w') {offer : Offer}
    (hpin : w' pin = some (.output owner offer)) :
    (Role.identity inputs (outputs ++ [pin])).Belongs w' owner := by
  obtain ⟨hnodup, hin, hout⟩ := h.identity ho
  refine ⟨hnodup, ?_, ?_⟩
  · intro i hi
    obtain ⟨k, hk⟩ := hin i hi
    exact ⟨k, hgrow.input hk⟩
  · intro o hi
    rcases List.mem_append.1 hi with hi | hi
    · obtain ⟨p, hp⟩ := hout o hi
      exact ⟨p, hgrow.output hp⟩
    · obtain rfl := List.mem_singleton.1 hi
      exact ⟨offer, hpin⟩

/-- Whoever has a pin is not bare. -/
theorem ne_of_bare {r : Role} (hr : w id = some r) (hbare : r.Bare)
    (ho : w owner = some (.identity inputs outputs)) (hj : pin ∈ inputs ∨ pin ∈ outputs) :
    owner ≠ id := by
  rintro rfl
  obtain ⟨rfl, rfl⟩ := hbare inputs outputs (Option.some.inj (hr.symm.trans ho))
  simp at hj

theorem without (h : w.Coherent) {r s : Role} (hr : w id = some r) (hbare : r.Bare) {j : Id}
    (hji : j ≠ id) (hj : w j = some s) : (s.drop id).Belongs (w.without id) j := by
  have hleft {owner : Id} {inputs outputs : List Id} (hoi : owner ≠ id)
      (ho : w owner = some (.identity inputs outputs)) : w.without id owner =
        some (.identity (inputs.filter (· ≠ id)) (outputs.filter (· ≠ id))) := by
    rw [Wiring.without_of_ne w hoi, ho]
    rfl
  cases s with
  | identity inputs outputs =>
      obtain ⟨hnodup, hin, hout⟩ := h.identity hj
      refine ⟨hnodup.filter _, ?_, ?_⟩
      · intro i hi
        obtain ⟨hi, hii⟩ := List.mem_filter.1 hi
        obtain ⟨k, hk⟩ := hin i hi
        exact ⟨k, by rw [Wiring.without_of_ne w (of_decide_eq_true hii), hk]; rfl⟩
      · intro o hi
        obtain ⟨hi, hii⟩ := List.mem_filter.1 hi
        obtain ⟨p, hp⟩ := hout o hi
        exact ⟨p, by rw [Wiring.without_of_ne w (of_decide_eq_true hii), hp]; rfl⟩
  | input owner kind =>
      obtain ⟨inputs, outputs, ho, hmem⟩ := h.input hj
      refine ⟨_, _, hleft (ne_of_bare hr hbare ho (Or.inl hmem)) ho, ?_⟩
      exact List.mem_filter.2 ⟨hmem, decide_eq_true hji⟩
  | output owner offer =>
      obtain ⟨inputs, outputs, ho, hmem⟩ := h.output hj
      refine ⟨_, _, hleft (ne_of_bare hr hbare ho (Or.inr hmem)) ho, ?_⟩
      exact List.mem_filter.2 ⟨hmem, decide_eq_true hji⟩

end Wiring.Coherent

namespace Wired

variable {w w' : Wiring} {g g₁ g' : Graph} {values values' : ValueStore} {id owner pin : Id}
  {inputs outputs : List Id}

theorem neighbors_eq_nil (h : Wired w g values) (hw : w id = none) : g.neighbors id = [] := by
  refine h.consistent.neighbors_eq_nil ?_
  rw [Graph.hasNode_eq, h.absent id hw]
  rfl

/-- A wiring that has grown, when the roles that are new or have changed are right. -/
theorem grow (h : Wired w g values) (hgrow : w.Grows w') (hc : g'.Consistent) (ha : g'.Acyclic)
    (same : ∀ j, w' j = w j → g'.node? j = g.node? j ∧ g'.neighbors j = g.neighbors j ∧
      values'.get? j = values.get? j)
    (other : ∀ j r, w' j = some r → w' j ≠ w j → r.Stands w' g' values' j)
    (edges : ∀ i e, g'.edge? i = some e → g.edge? i = some e ∨
      (e.kind = .external ↔ ∃ owner kind, w' e.source = some (.input owner kind))) :
    Wired w' g' values' := by
  have hnone {j : Id} (hj : w' j = none) : w j = none := by
    cases hw : w j with
    | none => rfl
    | some r =>
        obtain ⟨r', hr', _⟩ := hgrow j r hw
        simp [hj] at hr'
  have stands (j : Id) (r : Role) (hr : w' j = some r) : r.Stands w' g' values' j := by
    by_cases hj : w' j = w j
    · obtain ⟨hnode, hneighbors, hbox⟩ := same j hj
      have hold := h.stands (hj.symm.trans hr)
      exact { node := hnode ▸ hold.node, box := hbox ▸ hold.box,
              aims := hneighbors ▸ hgrow.aims hold.aims, belongs := hgrow.belongs hold.belongs }
    · exact other j r hr hj
  refine { consistent := hc, acyclic := ha, absent := ?_,
           node := fun j r hr => (stands j r hr).node, box := ?_,
           aims := fun j r hr => (stands j r hr).aims,
           belongs := fun j r hr => (stands j r hr).belongs, kind := ?_ }
  · intro j hj
    rw [(same j (hj.trans (hnone hj).symm)).1, h.absent j (hnone hj)]
  · intro j
    cases hw : w' j with
    | none =>
        have hbox := h.box j
        rw [hnone hw] at hbox
        rw [(same j (hw.trans (hnone hw).symm)).2.2]
        exact hbox
    | some r => exact (stands j r hw).box
  · intro i e he
    rcases edges i e he with he | he
    · have hs := (h.hasNode_iff e.source).1 (h.consistent.ends i e he).1
      rw [hgrow.exists_input_iff hs]
      exact h.kind i e he
    · exact he

theorem addIdentity (h : Wired w g values) {n : Node} (ha : g.AddsNode n id g')
    (hdir : n.direction = .none) (htype : n.type ≠ .value) :
    Wired (w.withIdentity id) g' values := by
  have hw : w id = none := h.eq_none ha.fresh
  have hself : w.withIdentity id id = some (.identity [] []) := Function.update_self ..
  have hne {j : Id} (hj : j ≠ id) : w.withIdentity id j = w j := Function.update_of_ne hj ..
  refine h.grow (Wiring.grows_withIdentity hw) ha.consistent (h.acyclic.of_step_imp ?_) ?_ ?_
    fun i e he => Or.inl (by rwa [ha.edge?] at he)
  · intro a b
    rw [Graph.Step, Graph.Step, ha.neighbors]
    exact fun hs => hs
  · intro j hj
    have hji : j ≠ id := by
      rintro rfl
      simp [hself, hw] at hj
    exact ⟨by rw [ha.node?, if_neg hji], ha.neighbors j, rfl⟩
  · intro j r hr hj
    obtain rfl : j = id := by
      by_contra hji
      exact hj (hne hji)
    obtain rfl := Option.some.inj (hself.symm.trans hr)
    refine { node := ⟨n, by rw [ha.node?, if_pos rfl], hdir, htype⟩, box := ?_, aims := ?_,
             belongs := ⟨List.nodup_nil, by simp, by simp⟩ }
    · have hbox := h.box j
      rw [hw] at hbox
      exact hbox
    · exact (ha.neighbors j).trans (h.neighbors_eq_nil hw)

/-- A new node leads nowhere and nothing leads to it. -/
theorem addNode_apart (h : Wired w g values) {n : Node} (ha : g.AddsNode n pin g₁) :
    g₁.neighbors pin = [] ∧ ∀ j, pin ∉ g₁.neighbors j := by
  have hw : w pin = none := h.eq_none ha.fresh
  refine ⟨(ha.neighbors pin).trans (h.neighbors_eq_nil hw), fun j => ?_⟩
  rw [ha.neighbors]
  exact h.notMem_neighbors hw j

theorem acyclic_addNode (h : Wired w g values) {n : Node} (ha : g.AddsNode n pin g₁) :
    g₁.Acyclic := by
  apply h.acyclic.of_step_imp
  intro a b hs
  rwa [Graph.Step, ha.neighbors] at hs

/-- A pin with its internal edge and its box, when the pin stands as its role says and its owner has
the targets of an identity that belongs. -/
theorem addPin (h : Wired w g values) (ho : w owner = some (.identity inputs outputs))
    {inputs' outputs' : List Id} {r : Role}
    (hgrow : w.Grows (w.withPin owner (.identity inputs' outputs') pin r)) {n : Node}
    (ha : g.AddsNode n pin g₁) {e : Edge} (he : g₁.AddsEdge e g') (v : Value)
    (hacyclic : g'.Acyclic) (hsource : e.source = pin ∨ e.source = owner ∧ inputs' ≠ inputs)
    (hpin : r.Stands (w.withPin owner (.identity inputs' outputs') pin r) g' (values.put pin v) pin)
    (haims : g'.neighbors owner = inputs')
    (hbelongs : (Role.identity inputs' outputs').Belongs
      (w.withPin owner (.identity inputs' outputs') pin r) owner)
    (hkind : e.kind = .external ↔ ∃ p kind,
      w.withPin owner (.identity inputs' outputs') pin r e.source = some (.input p kind)) :
    Wired (w.withPin owner (.identity inputs' outputs') pin r) g' (values.put pin v) := by
  have hw : w pin = none := h.eq_none ha.fresh
  have hnode {j : Id} (hj : j ≠ pin) : g'.node? j = g.node? j := by
    rw [he.node?, ha.node?, if_neg hj]
  have hbox {j : Id} (hj : j ≠ pin) : (values.put pin v).get? j = values.get? j := by
    rw [Table.get?_put, if_neg hj]
  refine h.grow hgrow he.consistent hacyclic ?_ ?_ ?_
  · intro j hj
    obtain ⟨hjp, hneighbors⟩ := Wiring.neighbors_withPin hw ho ha he hsource hj
    exact ⟨hnode hjp, hneighbors, hbox hjp⟩
  · intro j q hq hj
    rcases Wiring.withPin_cases hq hj with ⟨rfl, rfl⟩ | ⟨hjp, rfl, rfl⟩
    · exact hpin
    · have hold := h.stands ho
      exact { node := hnode hjp ▸ hold.node, box := hbox hjp ▸ hold.box, aims := haims,
              belongs := hbelongs }
  · intro i e' hi
    rw [he.edge?] at hi
    split at hi
    · obtain rfl := Option.some.inj hi
      exact Or.inr hkind
    · rw [ha.edge?] at hi
      exact Or.inl hi

theorem addInput (h : Wired w g values) (ho : w owner = some (.identity inputs outputs))
    {n : Node} (ha : g.AddsNode n pin g₁) (hdir : n.direction = .input) {edge : Id}
    (he : g₁.AddsEdge ⟨edge, owner, pin, .internal⟩ g') (v : Value) :
    Wired (w.withInput owner inputs outputs pin v.kind) g' (values.put pin v) := by
  have hw : w pin = none := h.eq_none ha.fresh
  obtain ⟨hnil, _⟩ := h.addNode_apart ha
  have hne : owner ≠ pin := by
    rintro rfl
    simp [hw] at ho
  have howner : w.withInput owner inputs outputs pin v.kind owner =
      some (.identity (inputs ++ [pin]) outputs) := Wiring.withPin_owner hne
  have hgrow := Wiring.grows_withInput hw ho v.kind
  have hacyclic : g'.Acyclic := by
    apply (h.acyclic_addNode ha).addsEdge he
    intro hlead
    rcases hlead.cases_head with heq | ⟨c, hc, _⟩
    · exact hne heq.symm
    · simp [Graph.Step, hnil] at hc
  have haims : g'.neighbors owner = inputs ++ [pin] := by
    rw [he.neighbors, if_pos rfl, ha.neighbors, h.aims owner _ ho]
  refine h.addPin ho hgrow ha he v hacyclic (Or.inr ⟨rfl, by simp⟩) ?_ haims
    (h.coherent.append_input ho hgrow hw Wiring.withPin_pin) ?_
  · refine { node := ⟨n, by rw [he.node?, ha.node?, if_pos rfl], hdir⟩, box := ⟨v, ?_, rfl⟩,
             aims := Or.inl ?_, belongs := ⟨_, _, howner, by simp⟩ }
    · rw [Table.get?_put, if_pos rfl]
    · rw [he.neighbors, if_neg hne.symm, hnil]
  · rw [Wiring.withPin_owner hne]
    simp

theorem addOutput (h : Wired w g values) (ho : w owner = some (.identity inputs outputs))
    {n : Node} (ha : g.AddsNode n pin g₁) (hdir : n.direction = .output) {edge : Id}
    (he : g₁.AddsEdge ⟨edge, pin, owner, .internal⟩ g') {v : Value} {offer : Offer}
    (hv : offer.Admits v.kind) :
    Wired (w.withOutput owner inputs outputs pin offer) g' (values.put pin v) := by
  have hw : w pin = none := h.eq_none ha.fresh
  obtain ⟨hnil, hmiss⟩ := h.addNode_apart ha
  have hne : owner ≠ pin := by
    rintro rfl
    simp [hw] at ho
  have howner : w.withOutput owner inputs outputs pin offer owner =
      some (.identity inputs (outputs ++ [pin])) := Wiring.withPin_owner hne
  have hgrow := Wiring.grows_withOutput hw ho offer
  have hacyclic : g'.Acyclic := by
    apply (h.acyclic_addNode ha).addsEdge he
    intro hlead
    rcases hlead.cases_tail with heq | ⟨c, _, hc⟩
    · exact hne heq.symm
    · exact hmiss c hc
  have haims : g'.neighbors owner = inputs := by
    rw [he.neighbors, if_neg hne, ha.neighbors, h.aims owner _ ho]
  refine h.addPin ho hgrow ha he v hacyclic (Or.inl rfl) ?_ haims
    (h.coherent.append_output ho hgrow Wiring.withPin_pin) ?_
  · refine { node := ⟨n, by rw [he.node?, ha.node?, if_pos rfl], hdir⟩, box := ⟨v, ?_, hv⟩,
             aims := ?_, belongs := ⟨_, _, howner, by simp⟩ }
    · rw [Table.get?_put, if_pos rfl]
    · rw [he.neighbors, if_pos rfl, hnil]
      rfl
  · rw [Wiring.withPin_pin]
    simp

theorem aims_without (h : Wired w g values) {r s : Role} (hr : w id = some r) (hbare : r.Bare)
    {j : Id} (hj : w j = some s) :
    (s.drop id).Aims (w.without id) ((g.neighbors j).filter (· ≠ id)) := by
  have haims := h.aims j s hj
  cases s with
  | identity inputs outputs => exact congrArg (List.filter (· ≠ id)) haims
  | input owner kind =>
      rcases haims with hnil | ⟨o, p, offer, ho, hp, hpo, hf⟩
      · exact Or.inl (by rw [hnil, List.filter_nil])
      · by_cases hoi : o = id
        · exact Or.inl (by rw [ho, hoi]; simp)
        · refine Or.inr ⟨o, p, offer, by rw [ho]; simp [hoi], ?_, hpo, hf⟩
          rw [Wiring.without_of_ne w hoi, hp]
          rfl
  | output owner offer =>
      obtain ⟨inputs, outputs, ho, hmem⟩ := h.output_belongs hj
      have hoi : owner ≠ id := Wiring.Coherent.ne_of_bare hr hbare ho (Or.inr hmem)
      rw [show g.neighbors j = [owner] from haims]
      show [owner].filter (· ≠ id) = [owner]
      simp [hoi]

/-- A pin, or an identity without pins, can be taken away. -/
theorem erase (h : Wired w g values) {r : Role} (hr : w id = some r) (hbare : r.Bare)
    (he : g.ErasesNode id g') : Wired (w.without id) g' (values.erase id) := by
  refine { consistent := he.consistent, acyclic := h.acyclic.of_step_imp ?_, absent := ?_,
           node := ?_, box := ?_, aims := ?_, belongs := ?_, kind := ?_ }
  · intro a b hs
    rw [Graph.Step, he.neighbors] at hs
    split at hs
    · cases hs
    · exact List.mem_of_mem_filter hs
  · intro j hj
    rw [he.node?]
    split
    · rfl
    · next hji =>
      rw [Wiring.without_of_ne w hji, Option.map_eq_none_iff] at hj
      exact h.absent j hj
  · intro j r' hr'
    obtain ⟨hji, s, hj, rfl⟩ := Wiring.of_without_eq_some hr'
    obtain ⟨n, hn, hd⟩ := h.node j s hj
    refine ⟨n, by rw [he.node?, if_neg hji, hn], ?_⟩
    cases s <;> exact hd
  · intro j
    rw [Table.get?_erase]
    split
    · next hji =>
      rw [hji, Wiring.without_self]
      rfl
    · next hji =>
      rw [Wiring.without_of_ne w hji]
      have hbox := h.box j
      rcases hj : w j with _ | s
      · rwa [hj] at hbox
      · rw [hj] at hbox
        cases s <;> exact hbox
  · intro j r' hr'
    obtain ⟨hji, s, hj, rfl⟩ := Wiring.of_without_eq_some hr'
    rw [he.neighbors, if_neg hji]
    exact h.aims_without hr hbare hj
  · intro j r' hr'
    obtain ⟨hji, s, hj, rfl⟩ := Wiring.of_without_eq_some hr'
    exact h.coherent.without hr hbare hji hj
  · intro i e hi
    rw [he.edge?] at hi
    obtain ⟨hi, ht⟩ := Option.filter_eq_some_iff.1 hi
    have hs : e.source ≠ id := by
      rintro rfl
      simp [Edge.touches] at ht
    rw [h.kind i e hi, Wiring.without_of_ne w hs]
    rcases hw : w e.source with _ | s
    · rfl
    · cases s <;> simp [Role.drop]

/-- An input without a link may be linked to an output of another identity that feeds it, unless
the output leads to it. -/
theorem link (h : Wired w g values) {i o p edge : Id} {kind : ValueKind} {offer : Offer}
    (hi : w i = some (.input owner kind)) (ho : w o = some (.output p offer)) (hp : p ≠ owner)
    (hf : offer.Feeds kind) (hnil : g.neighbors i = []) (hlead : ¬ g.Leads o i)
    (he : g.AddsEdge ⟨edge, i, o, .external⟩ g') : Wired w g' values := by
  have hneighbors (j : Id) : g'.neighbors j = if j = i then [o] else g.neighbors j := by
    rw [he.neighbors]
    split
    · next hj => rw [hj, hnil, List.nil_append]
    · rfl
  refine { consistent := he.consistent, acyclic := ?_, absent := ?_, node := ?_, box := h.box,
           aims := ?_, belongs := h.belongs, kind := ?_ }
  · exact h.acyclic.addsEdge he hlead
  · intro j hj
    rw [he.node?, h.absent j hj]
  · intro j r hr
    rw [he.node?]
    exact h.node j r hr
  · intro j r hr
    rw [hneighbors]
    split
    · next hj =>
      subst hj
      obtain rfl := Option.some.inj (hi.symm.trans hr)
      exact Or.inr ⟨o, p, offer, rfl, ho, hp, hf⟩
    · exact h.aims j r hr
  · intro k e hk
    rw [he.edge?] at hk
    split at hk
    · obtain rfl := Option.some.inj hk
      simp [hi]
    · exact h.kind k e hk

/-- A link leads from an input to an output of another identity, and is its only edge. -/
theorem neighbors_of_external (h : Wired w g values) {k : Id} {e : Edge} (he : g.edge? k = some e)
    (hx : e.kind = .external) : ∃ owner kind, w e.source = some (.input owner kind) ∧
      g.neighbors e.source = [e.target] := by
  obtain ⟨owner, kind, hi⟩ := (h.kind k e he).1 hx
  have hmem : e.target ∈ g.neighbors e.source :=
    h.consistent.mem_neighbors.2 ⟨e, Graph.mem_edgesFrom.2 ⟨⟨k, he⟩, rfl⟩, rfl⟩
  refine ⟨owner, kind, hi, ?_⟩
  rcases h.aims _ _ hi with hnil | ⟨o, _, _, ho, _⟩
  · simp [hnil] at hmem
  · rw [ho, List.mem_singleton] at hmem
    rw [ho, hmem]

theorem unlink (h : Wired w g values) {k : Id} {e : Edge} (hk : g.edge? k = some e)
    (hx : e.kind = .external) (he : g.ErasesEdge e g') : Wired w g' values := by
  obtain ⟨owner, kind, hi, hts⟩ := h.neighbors_of_external hk hx
  have hneighbors (j : Id) : g'.neighbors j = if j = e.source then [] else g.neighbors j := by
    rw [he.neighbors]
    split
    · next hj =>
      rw [hj, hts]
      simp
    · rfl
  refine { consistent := he.consistent, acyclic := h.acyclic.of_step_imp ?_, absent := ?_,
           node := ?_, box := h.box, aims := ?_, belongs := h.belongs, kind := ?_ }
  · intro a b hs
    rw [Graph.Step, hneighbors] at hs
    split at hs
    · cases hs
    · exact hs
  · intro j hj
    rw [he.node?, h.absent j hj]
  · intro j r hr
    rw [he.node?]
    exact h.node j r hr
  · intro j r hr
    rw [hneighbors]
    split
    · next hj =>
      subst hj
      obtain rfl := Option.some.inj (hi.symm.trans hr)
      exact Or.inl rfl
    · exact h.aims j r hr
  · intro i f hf
    rw [he.edge?] at hf
    split at hf
    · cases hf
    · exact h.kind i f hf

theorem put (h : Wired w g values) {v : Value} (hv : Role.Boxes (w pin) (some v)) :
    Wired w g (values.put pin v) :=
  { h with
    box := fun j => by
      rw [Table.get?_put]
      split
      · next hj => rwa [hj]
      · exact h.box j }

/-- The number of a node has no part in the wiring. -/
theorem setNumber (h : Wired w g values) (pin : Id) (x : Float32) :
    Wired w { g with nodes := g.nodes.modify pin fun n => { n with value := x } } values := by
  refine { h with
           consistent := h.consistent.setNumber pin x
           acyclic := h.acyclic
           absent := ?_
           node := ?_ }
  · intro j hj
    rw [Graph.node?_modify, h.absent j hj]
    rfl
  · intro j r hr
    obtain ⟨n, hn, hd⟩ := h.node j r hr
    refine ⟨_, by rw [Graph.node?_modify, hn]; rfl, ?_⟩
    split
    · cases r <;> exact hd
    · exact hd

end Wired

end DrawGraph
