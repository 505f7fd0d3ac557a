import DrawGraph.Proofs.Editor.Rewiring
import DrawGraph.UiNode.Basic
import Mathlib.Data.List.Nodup

/-!
# UI nodes in their roles

A UI node plays the identity that it has in a wiring together with the roles of all its pins. The
UI nodes of an editor play all roles that there are, each its own. What one of them does to its pins
is no concern of the others.
-/

namespace DrawGraph

namespace Wiring

/-- Inputs that are there later were the same inputs before, unless their ids are new. -/
structure Later (w : Wiring) (g : Graph) (w' : Wiring) (g' : Graph) : Prop where
  older : ∀ j owner kind, j < g.nextId → w' j = some (.input owner kind) →
    w j = some (.input owner kind)
  nextId_le : g.nextId ≤ g'.nextId

/-- Nothing but one identity and its pins has changed. -/
structure Recast (home : Id) (w : Wiring) (g : Graph) (w' : Wiring) (g' : Graph) : Prop
    extends Later w g w' g' where
  elsewhere : ∀ j (r : Role), r.home j ≠ home → (w j = some r ↔ w' j = some r)

variable {w w' w'' : Wiring} {g g' g'' : Graph} {home id owner pin : Id} {inputs outputs : List Id}

theorem Later.refl (w : Wiring) (g : Graph) : Later w g w g :=
  ⟨fun _ _ _ _ h => h, UInt32.le_refl _⟩

theorem Later.trans (h : Later w g w' g') (h' : Later w' g' w'' g'') : Later w g w'' g'' where
  older j owner kind hj hw :=
    h.older j owner kind hj (h'.older j owner kind (UInt32.lt_of_lt_of_le hj h.nextId_le) hw)
  nextId_le := UInt32.le_trans h.nextId_le h'.nextId_le

theorem Recast.of_le (home : Id) (w : Wiring) (hle : g.nextId ≤ g'.nextId) :
    Recast home w g w g' :=
  ⟨⟨fun _ _ _ _ h => h, hle⟩, fun _ _ _ => Iff.rfl⟩

theorem Recast.trans (h : Recast home w g w' g') (h' : Recast home w' g' w'' g'') :
    Recast home w g w'' g'' where
  toLater := h.toLater.trans h'.toLater
  elsewhere j r hr := (h.elsewhere j r hr).trans (h'.elsewhere j r hr)

theorem Recast.identity_iff (h : Recast home w g w' g') (hid : id ≠ home) :
    w id = some (.identity inputs outputs) ↔ w' id = some (.identity inputs outputs) :=
  h.elsewhere id (.identity inputs outputs) hid

theorem Recast.input_iff (h : Recast home w g w' g') (ho : owner ≠ home) {kind : ValueKind} :
    w pin = some (.input owner kind) ↔ w' pin = some (.input owner kind) :=
  h.elsewhere pin (.input owner kind) ho

theorem Recast.output_iff (h : Recast home w g w' g') (ho : owner ≠ home) {offer : Offer} :
    w pin = some (.output owner offer) ↔ w' pin = some (.output owner offer) :=
  h.elsewhere pin (.output owner offer) ho

theorem recast_withIdentity (hw : w id = none) (hle : g.nextId ≤ g'.nextId) :
    Recast id w g (w.withIdentity id) g' := by
  refine ⟨⟨?_, hle⟩, ?_⟩
  · intro j owner kind _ hj
    by_cases hji : j = id
    · subst hji
      simp [withIdentity] at hj
    · rwa [withIdentity, Function.update_of_ne hji] at hj
  · intro j r hr
    by_cases hji : j = id
    · subst hji
      rw [hw, withIdentity, Function.update_self]
      refine ⟨fun h => (by cases h), fun h => ?_⟩
      obtain rfl := Option.some.inj h
      exact absurd rfl hr
    · rw [withIdentity, Function.update_of_ne hji]

theorem recast_withPin {r : Role} {inputs' outputs' : List Id} (hw : w pin = none)
    (ho : w owner = some (.identity inputs outputs)) (hr : r.home pin = owner)
    (hpin : g.nextId ≤ pin) (hle : g.nextId ≤ g'.nextId) :
    Recast owner w g (w.withPin owner (.identity inputs' outputs') pin r) g' := by
  have hne : owner ≠ pin := by
    rintro rfl
    simp [hw] at ho
  refine ⟨⟨?_, hle⟩, ?_⟩
  · intro j p kind hlt hj
    have hjp : j ≠ pin := by
      rintro rfl
      exact UInt32.lt_irrefl _ (UInt32.lt_of_lt_of_le hlt hpin)
    by_cases hjo : j = owner
    · subst hjo
      rw [withPin_owner hne] at hj
      cases hj
    · rwa [withPin_of_ne hjp hjo] at hj
  · intro j q hq
    by_cases hjp : j = pin
    · subst hjp
      rw [hw, withPin_pin]
      refine ⟨fun h => (by cases h), fun h => ?_⟩
      obtain rfl := Option.some.inj h
      exact absurd hr hq
    · by_cases hjo : j = owner
      · subst hjo
        rw [ho, withPin_owner hne]
        constructor
        · intro h
          obtain rfl := Option.some.inj h
          exact absurd rfl hq
        · intro h
          obtain rfl := Option.some.inj h
          exact absurd rfl hq
      · rw [withPin_of_ne hjp hjo]

/-- No role is at home where there is none. -/
theorem Coherent.home_ne (h : w.Coherent) (hid : w id = none) {r : Role} (hr : w pin = some r) :
    r.home pin ≠ id := by
  rintro rfl
  cases r with
  | identity inputs outputs => exact absurd (hid.symm.trans hr) nofun
  | input owner kind =>
      obtain ⟨_, _, ho, _⟩ := h.input hr
      exact absurd (hid.symm.trans ho) nofun
  | output owner offer =>
      obtain ⟨_, _, ho, _⟩ := h.output hr
      exact absurd (hid.symm.trans ho) nofun

/-- What a new identity has got leaves the roles that there were. -/
theorem Recast.keeps (h : Recast id w g w' g') (hco : w.Coherent) (hid : w id = none) {r : Role}
    (hr : w pin = some r) : w' pin = some r :=
  (h.elsewhere pin r (hco.home_ne hid hr)).1 hr

theorem Recast.eq_none (h : Recast id w g w' g') (hco : w.Coherent) (hid : w id = none)
    (hpin : w' pin = none) : w pin = none := by
  cases hw : w pin with
  | none => rfl
  | some r => exact absurd (hpin.symm.trans (h.keeps hco hid hw)) nofun

end Wiring

/-- Nobody else has the pins of an identity, so nobody else minds when they go. -/
theorem Wiring.Coherent.recast {w : Wiring} {g g' : Graph} {id : Id} {r : Role}
    (h : w.Coherent) (hr : w id = some r) (hle : g.nextId ≤ g'.nextId) :
    Wiring.Recast (r.home id) w g (w.without id) g' := by
  refine ⟨⟨?_, hle⟩, ?_⟩
  · intro j owner kind _ hj
    obtain ⟨_, t, ht, hd⟩ := Wiring.of_without_eq_some hj
    cases t <;> simp_all [Role.drop]
  · intro j s hs
    by_cases hji : j = id
    · subst hji
      rw [hr, Wiring.without_self]
      refine ⟨fun h => ?_, fun h => (by cases h)⟩
      obtain rfl := Option.some.inj h
      exact absurd rfl hs
    · rw [Wiring.without_of_ne w hji, Option.map_eq_some_iff]
      -- an identity elsewhere does not list the node
      have hdrop {t : Role} (ht : w j = some t) (hth : t.home j ≠ r.home id) : t.drop id = t := by
        cases t with
        | identity inputs outputs =>
            obtain ⟨_, hin, hout⟩ := h.identity ht
            have hi : ∀ i ∈ inputs, i ≠ id := by
              rintro i hi rfl
              obtain ⟨k, hk⟩ := hin i hi
              obtain rfl := Option.some.inj (hk.symm.trans hr)
              exact hth rfl
            have ho : ∀ o ∈ outputs, o ≠ id := by
              rintro o ho rfl
              obtain ⟨p, hp⟩ := hout o ho
              obtain rfl := Option.some.inj (hp.symm.trans hr)
              exact hth rfl
            rw [Role.drop, List.filter_eq_self.2 fun i h => decide_eq_true (hi i h),
              List.filter_eq_self.2 fun o h => decide_eq_true (ho o h)]
        | input => rfl
        | output => rfl
      refine ⟨fun hj => ⟨s, hj, hdrop hj hs⟩, ?_⟩
      rintro ⟨t, ht, rfl⟩
      have hth : (t.drop id).home j = t.home j := by cases t <;> rfl
      rw [hdrop ht (hth ▸ hs)]
      exact ht

/-- An identity has just these inputs, each of its kind, and these outputs. -/
structure Wiring.Seats (w : Wiring) (id : Id) (sockets : List (Id × ValueKind)) (outputs : List Id)
    (offer : Offer) : Prop where
  identity : w id = some (.identity (sockets.map Prod.fst) outputs)
  input : ∀ p ∈ sockets, w p.1 = some (.input id p.2)
  output : ∀ o ∈ outputs, w o = some (.output id offer)

namespace Wiring.Seats

variable {w : Wiring} {id pin : Id} {sockets : List (Id × ValueKind)} {outputs : List Id}
  {offer : Offer}

theorem role (hs : w.Seats id sockets outputs offer)
    (hpin : pin ∈ sockets.map Prod.fst ∨ pin ∈ outputs) :
    ∃ r, w pin = some r ∧ r.home pin = id ∧ r.Bare := by
  rcases hpin with hpin | hpin
  · obtain ⟨p, hp, rfl⟩ := List.mem_map.1 hpin
    exact ⟨_, hs.input p hp, rfl, fun _ _ h => by cases h⟩
  · exact ⟨_, hs.output pin hpin, rfl, fun _ _ h => by cases h⟩

theorem addInput (hs : w.Seats id sockets outputs offer) (hpin : w pin = none) (kind : ValueKind) :
    (w.withInput id (sockets.map Prod.fst) outputs pin kind).Seats id (sockets ++ [(pin, kind)])
      outputs offer := by
  have hgrow := Wiring.grows_withInput hpin hs.identity kind
  have hne : id ≠ pin := by
    rintro rfl
    simp [hs.identity] at hpin
  refine ⟨?_, ?_, fun o ho => hgrow.output (hs.output o ho)⟩
  · rw [Wiring.withInput, Wiring.withPin_owner hne]
    simp
  · intro p hp
    rcases List.mem_append.1 hp with hp | hp
    · exact hgrow.input (hs.input p hp)
    · obtain rfl := List.mem_singleton.1 hp
      exact Wiring.withPin_pin

theorem addOutput (hs : w.Seats id sockets outputs offer) (hpin : w pin = none) :
    (w.withOutput id (sockets.map Prod.fst) outputs pin offer).Seats id sockets (outputs ++ [pin])
      offer := by
  have hgrow := Wiring.grows_withOutput hpin hs.identity offer
  have hne : id ≠ pin := by
    rintro rfl
    simp [hs.identity] at hpin
  refine ⟨Wiring.withPin_owner hne, fun p hp => hgrow.input (hs.input p hp), ?_⟩
  intro o ho
  rcases List.mem_append.1 ho with ho | ho
  · exact hgrow.output (hs.output o ho)
  · obtain rfl := List.mem_singleton.1 ho
    exact Wiring.withPin_pin

/-- An identity has its other pins still when one of them has gone. -/
theorem without (hs : w.Seats id sockets outputs offer) {r : Role} (hr : w pin = some r)
    (hbare : r.Bare) (hpin : pin ∈ sockets.map Prod.fst ∨ pin ∈ outputs) :
    (w.without pin).Seats id (sockets.filter (·.1 ≠ pin)) (outputs.filter (· ≠ pin)) offer := by
  have hne : id ≠ pin := by
    rintro rfl
    obtain rfl := Option.some.inj (hs.identity.symm.trans hr)
    obtain ⟨h₁, h₂⟩ := hbare _ _ rfl
    simp [h₁, h₂] at hpin
  refine ⟨?_, ?_, ?_⟩
  · rw [Wiring.without_of_ne w hne, hs.identity, Option.map_some, Role.drop, List.filter_map]
    rfl
  · intro p hp
    obtain ⟨hp, hpp⟩ := List.mem_filter.1 hp
    rw [Wiring.without_of_ne w (of_decide_eq_true hpp), hs.input p hp]
    rfl
  · intro o ho
    obtain ⟨ho, hop⟩ := List.mem_filter.1 ho
    rw [Wiring.without_of_ne w (of_decide_eq_true hop), hs.output o ho]
    rfl

end Wiring.Seats

namespace UiNode

/-- The inputs with the kinds of their boxes. -/
def sockets : UiNode → List (Id × ValueKind)
  | binary _ _ left right _ => [(left, .float), (right, .float)]
  | sine _ input _ => [(input, .float)]
  | camera c => [(c.position, .float3), (c.target, .float3)]
  | transform t => [(t.translation, .float3), (t.rotation, .float3), (t.scale, .float3)]
  | draw d => (d.shader, .int) :: (d.model, .int) :: d.bindings.map fun b => (b.pin, b.type.kind)
  | renderTarget _ input _ => [(input, .float)]
  | time .. | constant .. | asset .. | primitive .. => []

@[simp] theorem map_fst_sockets (n : UiNode) : n.sockets.map Prod.fst = n.inputs := by
  cases n <;> simp [sockets, inputs]

/-- What the output gives. -/
def offer : UiNode → Offer
  | binary .. => .number
  | constant kind .. => .exactly kind.valueKind
  | asset .. | primitive .. => .exactly .int
  | camera _ | transform _ => .exactly .float4x4
  | sine .. | time .. | draw _ | renderTarget .. => .exactly .float

/-- The UI node has the role of its identity, and its pins have theirs. -/
def Plays (n : UiNode) (w : Wiring) : Prop := w.Seats n.id n.sockets n.outputs n.offer

variable {n : UiNode} {w w' : Wiring} {g g' : Graph} {home : Id}

theorem Plays.identity (h : n.Plays w) : w n.id = some (.identity n.inputs n.outputs) := by
  rw [← n.map_fst_sockets]
  exact Wiring.Seats.identity h

theorem Plays.input (h : n.Plays w) {i : Id} (hi : i ∈ n.inputs) :
    ∃ kind, (i, kind) ∈ n.sockets ∧ w i = some (.input n.id kind) := by
  rw [← n.map_fst_sockets] at hi
  obtain ⟨⟨i, kind⟩, hmem, rfl⟩ := List.mem_map.1 hi
  exact ⟨kind, hmem, Wiring.Seats.input h _ hmem⟩

theorem Plays.output (h : n.Plays w) {o : Id} (ho : o ∈ n.outputs) :
    w o = some (.output n.id n.offer) :=
  Wiring.Seats.output h o ho

theorem Plays.elsewhere (h : n.Plays w) (hw : Wiring.Recast home w g w' g') (hn : n.id ≠ home) :
    n.Plays w' where
  identity := (hw.identity_iff hn).1 (Wiring.Seats.identity h)
  input p hp := (hw.input_iff hn).1 (Wiring.Seats.input h p hp)
  output o ho := (hw.output_iff hn).1 (Wiring.Seats.output h o ho)

/-- A UI node has each of its pins once, and none of them is its identity. -/
theorem Plays.nodup (h : n.Plays w) (hw : w.Coherent) :
    (n.id :: n.pins).Nodup := by
  refine List.nodup_cons.2 ⟨?_, List.nodup_append.2 ⟨?_, ?_, ?_⟩⟩
  · intro hmem
    have hid := h.identity
    rcases List.mem_append.1 hmem with hin | hout
    · obtain ⟨kind, _, hrole⟩ := h.input hin
      rw [hid] at hrole
      cases hrole
    · have hrole := h.output hout
      rw [hid] at hrole
      cases hrole
  · exact (hw.identity h.identity).1
  · cases n <;> simp [outputs]
  · rintro a ha b hb rfl
    obtain ⟨kind, _, hin⟩ := h.input ha
    rw [h.output hb] at hin
    cases hin

theorem Plays.home_eq (h : n.Plays w) {id : Id} (hid : id ∈ n.id :: n.pins) :
    ∃ r, w id = some r ∧ r.home id = n.id := by
  rcases List.mem_cons.1 hid with rfl | hid
  · exact ⟨_, h.identity, rfl⟩
  · rcases List.mem_append.1 hid with hin | hout
    · obtain ⟨kind, _, hrole⟩ := h.input hin
      exact ⟨_, hrole, rfl⟩
    · exact ⟨_, h.output hout, rfl⟩

end UiNode

theorem UiNode.find?_id {nodes : List UiNode} {n : UiNode} (hnodup : (nodes.map UiNode.id).Nodup)
    (hn : n ∈ nodes) : nodes.find? (·.id == n.id) = some n := by
  cases hf : nodes.find? (·.id == n.id) with
  | none =>
      have := List.find?_eq_none.1 hf n hn
      simp at this
  | some m =>
      have hid : m.id = n.id := by simpa using List.find?_some hf
      rw [List.inj_on_of_nodup_map hnodup (List.mem_of_find?_eq_some hf) hn hid]

/-- The UI nodes play the roles of a wiring, and every identity is played by one of them. -/
structure Casts (w : Wiring) (nodes : List UiNode) : Prop where
  nodup : (nodes.map UiNode.id).Nodup
  plays : ∀ n ∈ nodes, n.Plays w
  cast : ∀ id inputs outputs, w id = some (.identity inputs outputs) → ∃ n ∈ nodes, n.id = id

namespace Casts

variable {w w' : Wiring} {g g' : Graph} {nodes : List UiNode} {n n' : UiNode}

theorem empty : Casts (fun _ => none) [] where
  nodup := List.nodup_nil
  plays _ h := by cases h
  cast _ _ _ h := by cases h

theorem eq_of_id (h : Casts w nodes) (hn : n ∈ nodes) (hn' : n' ∈ nodes) (hid : n.id = n'.id) :
    n = n' :=
  List.inj_on_of_nodup_map h.nodup hn hn' hid

theorem find?_id (h : Casts w nodes) (hn : n ∈ nodes) : nodes.find? (·.id == n.id) = some n :=
  UiNode.find?_id h.nodup hn

theorem exists_of_elsewhere (h : Casts w nodes) {home id : Id} (hw : Wiring.Recast home w g w' g')
    {inputs outputs : List Id} (hid : id ≠ home) (hr : w' id = some (.identity inputs outputs)) :
    ∃ n ∈ nodes, n.id = id :=
  h.cast id inputs outputs ((hw.identity_iff hid).2 hr)

theorem add (h : Casts w nodes) (hw : Wiring.Recast n.id w g w' g') (hnew : w n.id = none)
    (hn : n.Plays w') : Casts w' (nodes ++ [n]) := by
  have hne : ∀ m ∈ nodes, m.id ≠ n.id := by
    intro m hm hmn
    have hid := (h.plays m hm).identity
    simp [hmn, hnew] at hid
  refine ⟨?_, ?_, ?_⟩
  · rw [List.map_append]
    refine List.nodup_append.2 ⟨h.nodup, by simp, fun a ha b hb => ?_⟩
    obtain ⟨m, hm, rfl⟩ := List.mem_map.1 ha
    obtain rfl : b = n.id := by simpa using hb
    exact hne m hm
  · intro m hm
    rcases List.mem_append.1 hm with hm | hm
    · exact (h.plays m hm).elsewhere hw (hne m hm)
    · obtain rfl := List.mem_singleton.1 hm
      exact hn
  · intro id inputs outputs hr
    by_cases hid : id = n.id
    · exact ⟨n, by simp, hid.symm⟩
    · obtain ⟨m, hm, hmid⟩ := h.exists_of_elsewhere hw hid hr
      exact ⟨m, List.mem_append_left _ hm, hmid⟩

theorem replace (h : Casts w nodes) (hmem : n.id ∈ nodes.map UiNode.id)
    (hw : Wiring.Recast n.id w g w' g') (hn : n.Plays w') :
    Casts w' (nodes.map fun m => if m.id = n.id then n else m) := by
  have hids : (nodes.map fun m => if m.id = n.id then n else m).map UiNode.id =
      nodes.map UiNode.id := by
    rw [List.map_map]
    apply List.map_congr_left
    intro m _
    by_cases hm : m.id = n.id <;> simp [hm]
  refine ⟨hids ▸ h.nodup, ?_, ?_⟩
  · intro m hm
    obtain ⟨k, hk, rfl⟩ := List.mem_map.1 hm
    split
    · exact hn
    · next hne => exact (h.plays k hk).elsewhere hw hne
  · intro id inputs outputs hr
    have hid : id ∈ nodes.map UiNode.id := by
      by_cases hid : id = n.id
      · exact hid ▸ hmem
      · obtain ⟨m, hm, hmid⟩ := h.exists_of_elsewhere hw hid hr
        exact List.mem_map.2 ⟨m, hm, hmid⟩
    rw [← hids] at hid
    exact List.mem_map.1 hid

theorem remove (h : Casts w nodes) {id : Id} (hw : Wiring.Recast id w g w' g')
    (hgone : w' id = none) : Casts w' (nodes.filter (·.id != id)) := by
  refine ⟨h.nodup.sublist (List.filter_sublist.map _), ?_, ?_⟩
  · intro m hm
    obtain ⟨hm, hne⟩ := List.mem_filter.1 hm
    exact (h.plays m hm).elsewhere hw (by simpa using hne)
  · intro j inputs outputs hr
    have hj : j ≠ id := by
      rintro rfl
      simp [hgone] at hr
    obtain ⟨m, hm, hmid⟩ := h.exists_of_elsewhere hw hj hr
    exact ⟨m, List.mem_filter.2 ⟨hm, by simpa [hmid] using hj⟩, hmid⟩

end Casts

end DrawGraph
