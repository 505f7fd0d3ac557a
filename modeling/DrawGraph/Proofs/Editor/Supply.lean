import DrawGraph.Proofs.Editor.Casting

/-!
# What nodes supply

The kind of the value that an output supplies in an evaluation is fixed by the wiring. Only sums
and products leave a choice: they give integers when both operands are supplied with integers and
other numbers otherwise. An input clashes with its supply when it is linked to an output that
supplies integers but takes none.
-/

namespace DrawGraph

namespace Wiring

variable {w : Wiring} {g : Graph}

/-- The output supplies integers. -/
inductive Integral (w : Wiring) (g : Graph) : Id → Prop
  | exactly {o p : Id} (ho : w o = some (.output p (.exactly .int))) : Integral w g o
  | number {o p left right a b : Id} {outputs : List Id} (ho : w o = some (.output p .number))
      (hp : w p = some (.identity [left, right] outputs)) (hleft : g.neighbors left = [a])
      (hright : g.neighbors right = [b]) (ha : Integral w g a) (hb : Integral w g b) :
      Integral w g o

/-- The output may supply the value. -/
def Supplies (w : Wiring) (g : Graph) (o : Id) (v : Value) : Prop :=
  ∃ p offer, w o = some (.output p offer) ∧ offer.Admits v.kind ∧
    (v.kind = .int ↔ w.Integral g o)

/-- A walk may leave the value for the node. -/
inductive Yields (w : Wiring) (g : Graph) : Id → Value → Prop
  | identity {id : Id} {v : Value} {inputs outputs : List Id}
      (hid : w id = some (.identity inputs outputs)) (hv : ∀ o ∈ outputs, w.Supplies g o v) :
      Yields w g id v
  | output {id : Id} {v : Value} (hv : w.Supplies g id v) : Yields w g id v
  | box {id owner : Id} {v : Value} {kind : ValueKind} (hid : w id = some (.input owner kind))
      (hnil : g.neighbors id = []) (hv : v.kind = kind) : Yields w g id v
  | link {id owner o : Id} {v : Value} {kind : ValueKind}
      (hid : w id = some (.input owner kind)) (ho : g.neighbors id = [o])
      (hv : w.Supplies g o v) : Yields w g id v

/-- The input is linked to an output that supplies integers, which it cannot take. -/
def Clashes (w : Wiring) (g : Graph) (pin : Id) : Prop :=
  ∃ owner kind o, w pin = some (.input owner kind) ∧ g.neighbors pin = [o] ∧ w.Integral g o ∧
    ¬ ValueKind.int.canFeed kind

/-- Some input of the identity clashes with its supply. -/
def Misfed (w : Wiring) (g : Graph) (id : Id) : Prop :=
  ∃ inputs outputs, w id = some (.identity inputs outputs) ∧ ∃ pin ∈ inputs, w.Clashes g pin

theorem Integral.offer {o p : Id} {offer : Offer} (h : w.Integral g o)
    (ho : w o = some (.output p offer)) : offer = .exactly .int ∨ offer = .number := by
  cases h with
  | exactly ho' =>
      rw [ho] at ho'
      cases ho'
      exact Or.inl rfl
  | number ho' =>
      rw [ho] at ho'
      cases ho'
      exact Or.inr rfl

theorem supplies_of_exactly {o p : Id} {kind : ValueKind} {v : Value}
    (ho : w o = some (.output p (.exactly kind))) (hv : v.kind = kind) : w.Supplies g o v := by
  refine ⟨p, _, ho, hv, ?_, ?_⟩
  · intro hint
    obtain rfl : kind = .int := hv.symm.trans hint
    exact .exactly ho
  · intro hint
    rcases hint.offer ho with h | h
    · cases h
      exact hv
    · cases h

/-- A sum or product supplies an integer exactly when both operands are integers. -/
theorem integral_number_iff {o p left right : Id} {outputs : List Id}
    (ho : w o = some (.output p .number)) (hp : w p = some (.identity [left, right] outputs)) :
    w.Integral g o ↔ (∃ a, g.neighbors left = [a] ∧ w.Integral g a) ∧
      ∃ b, g.neighbors right = [b] ∧ w.Integral g b := by
  constructor
  · intro h
    cases h with
    | exactly ho' =>
        rw [ho] at ho'
        cases ho'
    | number ho' hp' hleft hright ha hb =>
        rw [ho] at ho'
        cases ho'
        rw [hp] at hp'
        cases hp'
        exact ⟨⟨_, hleft, ha⟩, _, hright, hb⟩
  · rintro ⟨⟨a, hleft, ha⟩, b, hright, hb⟩
    exact .number ho hp hleft hright ha hb

theorem Yields.of_output {o p : Id} {offer : Offer} {v : Value} (h : w.Yields g o v)
    (ho : w o = some (.output p offer)) : w.Supplies g o v := by
  cases h with
  | output hv => exact hv
  | identity hid =>
      rw [ho] at hid
      cases hid
  | box hid =>
      rw [ho] at hid
      cases hid
  | link hid =>
      rw [ho] at hid
      cases hid

theorem Yields.of_identity {id : Id} {inputs outputs : List Id} {v : Value} (h : w.Yields g id v)
    (hid : w id = some (.identity inputs outputs)) : ∀ o ∈ outputs, w.Supplies g o v := by
  cases h with
  | identity hid' hv =>
      rw [hid] at hid'
      cases hid'
      exact hv
  | output hv =>
      obtain ⟨_, _, hrole, _⟩ := hv
      rw [hid] at hrole
      cases hrole
  | box hrole =>
      rw [hid] at hrole
      cases hrole
  | link hrole =>
      rw [hid] at hrole
      cases hrole

variable {values : ValueStore} {pin owner : Id} {kind : ValueKind} {v : Value}

/-- What an input gets is of its own kind, or from a link that feeds it. -/
theorem Yields.input_cases (h : w.Yields g pin v) (hw : Wired w g values)
    (hpin : w pin = some (.input owner kind)) :
    g.neighbors pin = [] ∧ v.kind = kind ∨
      ∃ o offer, g.neighbors pin = [o] ∧ offer.Feeds kind ∧ offer.Admits v.kind ∧
        (∃ p, w o = some (.output p offer)) ∧ (v.kind = .int ↔ w.Integral g o) := by
  cases h with
  | identity hid =>
      rw [hpin] at hid
      cases hid
  | output hv =>
      obtain ⟨p, offer, ho, _⟩ := hv
      rw [hpin] at ho
      cases ho
  | box hid hnil hv =>
      rw [hpin] at hid
      cases hid
      exact Or.inl ⟨hnil, hv⟩
  | link hid ho hv =>
      obtain ⟨p, offer, hrole, hadmits, hint⟩ := hv
      rcases hw.aims pin _ hpin with hnil | ⟨o', p', offer', ho', hrole', _, hfeeds⟩
      · simp [hnil] at ho
      · rw [ho] at ho'
        cases ho'
        rw [hrole] at hrole'
        cases hrole'
        exact Or.inr ⟨_, offer, ho, hfeeds, hadmits, ⟨p, hrole⟩, hint⟩

theorem Yields.int_iff (h : w.Yields g pin v) (hw : Wired w g values)
    (hpin : w pin = some (.input owner kind)) (hk : kind ≠ .int) :
    v.kind = .int ↔ ∃ o, g.neighbors pin = [o] ∧ w.Integral g o := by
  rcases h.input_cases hw hpin with ⟨hnil, hv⟩ | ⟨o, offer, ho, _, _, _, hint⟩
  · simp [hnil, hv, hk]
  · simp [ho, hint]

/-- What an input gets can become the input's kind, unless the input clashes with its supply. -/
theorem Yields.canFeed_iff (h : w.Yields g pin v) (hw : Wired w g values)
    (hpin : w pin = some (.input owner kind)) : v.kind.canFeed kind ↔ ¬ w.Clashes g pin := by
  have hclash : w.Clashes g pin ↔ ∃ o, g.neighbors pin = [o] ∧ w.Integral g o ∧
      ¬ ValueKind.int.canFeed kind := by
    simp [Clashes, hpin]
  rw [hclash]
  rcases h.input_cases hw hpin with ⟨hnil, hv⟩ | ⟨o, offer, ho, hfeeds, hadmits, _, hint⟩
  · simp [hnil, hv]
  · obtain ⟨k, hk, hfeed⟩ := hfeeds
    simp only [ho, List.cons.injEq, and_true, exists_eq_left', ← hint]
    cases offer with
    | exactly j =>
        obtain rfl : k = j := hk
        obtain hadmits : v.kind = k := hadmits
        rw [hadmits]
        refine ⟨?_, fun _ => hfeed⟩
        rintro _ ⟨rfl, hno⟩
        exact hno hfeed
    | number =>
        rcases hadmits with hv | hv
        · -- whatever takes integers takes other numbers too
          have hfloat : ValueKind.float.canFeed kind := by
            rcases hk with rfl | rfl
            · exact hfeed
            · cases kind <;> first | rfl | cases hfeed
          simp [hv, hfloat]
        · simp [hv]

theorem Yields.number (h : w.Yields g pin v) (hw : Wired w g values)
    (hpin : w pin = some (.input owner .float)) : v.kind = .float ∨ v.kind = .int := by
  have hfeed : v.kind.canFeed .float := by
    rw [h.canFeed_iff hw hpin]
    rintro ⟨p, kind, o, hrole, _, _, hno⟩
    rw [hpin] at hrole
    cases hrole
    exact hno rfl
  revert hfeed
  cases v.kind <;> simp [ValueKind.canFeed]

end Wiring

end DrawGraph
