import DrawGraph.Proofs.Editor.Reopening

/-!
# Values that survive a reopening

Constants write their values down, and cameras and transforms those of their inputs. The number of
any other input stands with its node, an integer as a float. So what was set is there again after
saving and loading, but for the vectors and matrices of a shader's variables: nothing writes these
down, and they start anew.
-/

namespace DrawGraph

open UiNode

/-- A kind whose values the number of a node can hold. -/
def ValueKind.Numeric (k : ValueKind) : Prop := k = .float ∨ k = .int

instance (k : ValueKind) : Decidable k.Numeric := inferInstanceAs (Decidable (_ ∨ _))

/-- A value that floats can hold: an integer has at most 24 binary digits before zeros. -/
def Value.Exact : Value → Prop
  | .int n => ∃ m < 2 ^ 24, ∃ e, n.toInt.natAbs = m * 2 ^ e
  | _ => True

theorem Value.renumbered_ofKind {v : Value} (hnumeric : v.kind.Numeric) (hexact : v.Exact)
    {x : Float32} (hx : ∀ y, v.scalar? = some y → x = y) :
    (Value.ofKind v.kind).renumbered x = v := by
  cases v with
  | float y => exact congrArg Value.float (hx y rfl)
  | int n =>
      obtain ⟨m, hm, e, hn⟩ := hexact
      rw [hx _ rfl]
      exact congrArg Value.int (Binary32.toInt32_ofInt32 hm hn)
  | float2 | float3 | float4 | float4x4 =>
      rcases hnumeric with hkind | hkind <;> cases hkind

theorem Value.renumbered_vector {k : ValueKind} (h : ¬ k.Numeric) (x : Float32) :
    (Value.ofKind k).renumbered x = .ofKind k := by
  cases k with
  | float => exact absurd (Or.inl rfl) h
  | int => exact absurd (Or.inr rfl) h
  | float2 | float3 | float4 | float4x4 => rfl

namespace Editor

variable {w : Wiring} {e : Editor}

/-- A UI node finds its pins as the document has them, and what it puts there stays. -/
theorem box_loadNodes {ns : List UiNode} (hnodup : (ns.flatMap UiNode.pins).Nodup) {n : UiNode}
    (hn : n ∈ ns) (s : Scene) :
    ∃ t : Scene, (∀ p ∈ n.pins, t.number p = s.number p) ∧
      ∀ p ∈ n.pins, (loadNodes ns s).2.values.get? p = (n.onLoad t).2.values.get? p := by
  induction ns generalizing s with
  | nil => cases hn
  | cons m ns ih =>
      rw [List.flatMap_cons] at hnodup
      obtain ⟨_, hrest, hdisjoint⟩ := List.nodup_append.1 hnodup
      rcases List.mem_cons.1 hn with rfl | hn
      · refine ⟨s, fun _ _ => rfl, ?_⟩
        intro p hp
        exact (refills_loadNodes ns (n.onLoad s).2).box p fun hmem => hdisjoint p hp p hmem rfl
      · obtain ⟨t, hnumber, hbox⟩ := ih hrest hn (m.onLoad s).2
        refine ⟨t, ?_, hbox⟩
        intro p hp
        have hp' : p ∉ m.pins :=
          fun hmem => hdisjoint p hmem p (List.mem_flatMap.2 ⟨n, hn, hp⟩) rfl
        rw [hnumber p hp, Scene.number, (refills_onLoad m s).node? p hp', Scene.number]

theorem Sound.box_reopened (hs : e.Sound w) {n : UiNode} (hn : n ∈ e.nodes) (services : Services)
    (settings : EvalSettings) :
    ∃ t : Scene, (∀ p ∈ n.pins, t.number p = e.scene.number p) ∧
      ∀ p ∈ n.pins, (e.reopened services settings).values.get? p =
        ((n.recorded e.values).onLoad t).2.values.get? p := by
  have hpins : ((e.nodes.map (recorded e.values)).flatMap UiNode.pins).Nodup := by
    have hsame : (e.nodes.map (recorded e.values)).flatMap UiNode.pins =
        e.nodes.flatMap UiNode.pins := by
      rw [List.flatMap_map]
      exact congrArg (List.flatMap · e.nodes) (funext fun n => pins_recorded e.values n)
    have hnodup := List.nodup_flatMap.1 hs.nodup
    rw [hsame, List.nodup_flatMap]
    refine ⟨fun n hn => (List.nodup_cons.1 (hnodup.1 n hn)).2, hnodup.2.imp ?_⟩
    exact fun h p hp hp' => h (List.mem_cons_of_mem _ hp) (List.mem_cons_of_mem _ hp')
  have hbox := box_loadNodes hpins (List.mem_map_of_mem hn)
    { graph := e.graph, services }
  rw [pins_recorded] at hbox
  exact hbox

/-- The values that come back in another editor: those of constants and of inputs. The vectors of a
shader's variables do not, and have their first values again. -/
structure Survives (e e' : Editor) : Prop where
  constant : ∀ kind id output loaded, .constant kind id output loaded ∈ e.nodes →
    e'.values.get? output = e.values.get? output
  input : ∀ n ∈ e.nodes, ∀ p ∈ n.inputs, (∀ b ∈ n.bindings, b.pin = p → b.type.kind.Numeric) →
    ∀ v, e.values.get? p = some v → v.Exact → e'.values.get? p = some v
  vector : ∀ n ∈ e.nodes, ∀ b ∈ n.bindings, ¬ b.type.kind.Numeric →
    e'.values.get? b.pin = some (.ofKind b.type.kind)

/-- The number of an input's node is that of its box. -/
theorem Sound.number_eq (hs : e.Sound w) (ht : e.scene.Tidy) {p owner : Id} {kind : ValueKind}
    (hp : w p = some (.input owner kind)) {v : Value} (hv : e.values.get? p = some v) {x : Float32}
    (hx : v.scalar? = some x) : e.scene.number p = x := by
  obtain ⟨n, hn, hdir⟩ := hs.wired.node p _ hp
  have hnode : e.scene.graph.node? p = some n := hn
  rw [Scene.number, hnode, Option.map_some, Option.getD_some]
  exact ht.mirrors p n v x hn hdir hv hx

/-- A vector that the record of an input holds is that of its box. -/
theorem getD_stored {p q : Id} {x : Vec3} (hp : e.values.get? p = some (.float3 x))
    {fallback : Vec3} {other : Option Value} {v : Value}
    (hother : p ≠ q → other.getD v = .float3 x) :
    (if p = q then some (.float3 (storedVec3 e.values q fallback)) else other).getD v =
      .float3 x := by
  split
  · next hpin => rw [← hpin, storedVec3, hp, Option.getD_some]
  · next hne => exact hother hne

/-- An input that is no vector of a shader is known from its record or from its number. -/
theorem Sound.loadedInput_recorded (hs : e.Sound w) (ht : e.scene.Tidy) {n : UiNode}
    (hn : n ∈ e.nodes) {p : Id} {kind : ValueKind} (hp : (p, kind) ∈ n.sockets) {v : Value}
    (hv : e.values.get? p = some v) (hexact : v.Exact)
    (hnumeric : ∀ b ∈ n.bindings, b.pin = p → b.type.kind.Numeric) :
    ((n.recorded e.values).loadedInput p).getD
      ((Value.ofKind kind).renumbered (e.scene.number p)) = v := by
  have hrole := Wiring.Seats.input (hs.casts.plays n hn) _ hp
  obtain ⟨u, hu, hkind⟩ := hs.wired.input_box hrole
  obtain rfl : v = u := Option.some.inj (hv.symm.trans hu)
  have hnumber (h : kind.Numeric) : (Value.ofKind kind).renumbered (e.scene.number p) = v := by
    dsimp only at hkind
    subst hkind
    exact Value.renumbered_ofKind h hexact fun y hy => hs.number_eq ht hrole hv hy
  have hvector (h : kind = .float3) : ∃ x, v = .float3 x := by
    dsimp only at hkind
    subst hkind
    cases v <;> first | exact ⟨_, rfl⟩ | cases h
  cases n with
  | binary op id left right output =>
      apply hnumber
      simp only [sockets, List.mem_cons, Prod.mk.injEq, List.not_mem_nil, or_false] at hp
      rcases hp with ⟨-, rfl⟩ | ⟨-, rfl⟩ <;> exact Or.inl rfl
  | sine id input output =>
      apply hnumber
      simp only [sockets, List.mem_singleton, Prod.mk.injEq] at hp
      exact Or.inl hp.2
  | time | constant | asset | primitive => cases hp
  | camera c =>
      simp only [sockets, List.mem_cons, Prod.mk.injEq, List.not_mem_nil, or_false] at hp
      have hkind3 : kind = .float3 := by rcases hp with ⟨-, rfl⟩ | ⟨-, rfl⟩ <;> rfl
      obtain ⟨x, rfl⟩ := hvector hkind3
      refine getD_stored hv fun hposition => getD_stored hv fun htarget => ?_
      rcases hp with ⟨h, -⟩ | ⟨h, -⟩
      · exact absurd h hposition
      · exact absurd h htarget
  | transform t =>
      simp only [sockets, List.mem_cons, Prod.mk.injEq, List.not_mem_nil, or_false] at hp
      have hkind3 : kind = .float3 := by
        rcases hp with ⟨-, rfl⟩ | ⟨-, rfl⟩ | ⟨-, rfl⟩ <;> rfl
      obtain ⟨x, rfl⟩ := hvector hkind3
      refine getD_stored hv fun htranslation => getD_stored hv fun hrotation =>
        getD_stored hv fun hscale => ?_
      rcases hp with ⟨h, -⟩ | ⟨h, -⟩ | ⟨h, -⟩
      · exact absurd h htranslation
      · exact absurd h hrotation
      · exact absurd h hscale
  | draw d =>
      apply hnumber
      simp only [sockets, List.mem_cons, List.mem_map, Prod.mk.injEq] at hp
      rcases hp with ⟨-, rfl⟩ | ⟨-, rfl⟩ | ⟨b, hb, hpin, rfl⟩
      · exact Or.inr rfl
      · exact Or.inr rfl
      · exact hnumeric b hb hpin
  | renderTarget id input ready =>
      apply hnumber
      simp only [sockets, List.mem_singleton, Prod.mk.injEq] at hp
      exact Or.inl hp.2

/-- What was set in a reached editor is there again when it has been saved and loaded. -/
theorem Reached.survives (h : Reached e) (hsave : e.Savable) (e₀ : Editor) :
    ∃ e', e₀.load e.save = (.ok (), e') ∧ Survives e e' := by
  refine ⟨_, h.load_save_eq hsave e₀, ?_⟩
  obtain ⟨w, hs⟩ := h.sound
  have hnodup {n : UiNode} (hn : n ∈ e.nodes) : (n.recorded e.values).pins.Nodup := by
    rw [pins_recorded]
    exact (List.nodup_cons.1 ((hs.casts.plays n hn).nodup hs.wired.coherent)).2
  constructor
  · intro kind id output loaded hn
    obtain ⟨t, _, hbox⟩ := hs.box_reopened hn e₀.scene.services e₀.settings
    obtain ⟨v, hv, _⟩ := hs.wired.output_box ((hs.casts.plays _ hn).output List.mem_cons_self)
    rw [hbox output List.mem_cons_self, hv]
    simp [recorded, onLoad, constantValue, hv]
  · intro n hn p hp hnumeric v hv hexact
    obtain ⟨t, hnumber, hbox⟩ := hs.box_reopened hn e₀.scene.services e₀.settings
    obtain ⟨kind, hsocket, _⟩ := (hs.casts.plays n hn).input hp
    have hpin : p ∈ n.pins := List.mem_append_left _ hp
    rw [← sockets_recorded e.values] at hsocket
    rw [hbox p hpin, box_onLoad (hnodup hn) hsocket, hnumber p hpin]
    rw [sockets_recorded] at hsocket
    rw [hs.loadedInput_recorded h.tidy hn hsocket hv hexact hnumeric]
  · intro n hn b hb hvector
    obtain ⟨t, _, hbox⟩ := hs.box_reopened hn e₀.scene.services e₀.settings
    cases n with
    | draw d =>
        have hsocket : (b.pin, b.type.kind) ∈ ((UiNode.draw d).recorded e.values).sockets :=
          List.mem_cons_of_mem _ (List.mem_cons_of_mem _ (List.mem_map_of_mem hb))
        have hinput : b.pin ∈ (UiNode.draw d).inputs :=
          List.mem_cons_of_mem _ (List.mem_cons_of_mem _ (List.mem_map_of_mem hb))
        have hpin : b.pin ∈ (UiNode.draw d).pins := List.mem_append_left _ hinput
        rw [hbox b.pin hpin, box_onLoad (hnodup hn) hsocket]
        exact congrArg some (Value.renumbered_vector hvector _)
    | binary | sine | time | constant | asset | primitive | camera | transform | renderTarget =>
        cases hb

theorem survives_staged : Reached staged ∧ staged.Savable ∧
    ∃ e', staged.load staged.save = (.ok (), e') ∧ Survives staged e' :=
  ⟨reached_staged, savable_staged, reached_staged.survives savable_staged staged⟩

/-- The lamp in a colour of its own, with a model whose index no float can hold. -/
def tinted : Editor :=
  [.setRoot (some 3), .setPin 11 (.float3 #v[1, 0.5, 0.25]),
    .setPin 6 (.int 16777217)].foldl Operation.apply lit

/-- The colour that was set at the unlinked input for it is lost when the lamp is saved and loaded,
and the index of the model becomes another. -/
theorem tinted_fades : Reached tinted ∧ tinted.Savable ∧
    (∃ d, .draw d ∈ tinted.nodes ∧ d.model = 6 ∧ ⟨11, "tint", .float3⟩ ∈ d.bindings) ∧
    tinted.graph.neighbors 6 = [] ∧ tinted.values.get? 6 = some (.int 16777217) ∧
    tinted.graph.neighbors 11 = [] ∧ tinted.values.get? 11 = some (.float3 #v[1, 0.5, 0.25]) ∧
    ∃ e', tinted.load tinted.save = (.ok (), e') ∧
      e'.values.get? 6 = some (.int 16777216) ∧
      e'.values.get? 11 = some (.float3 #v[0, 0, 0]) := by
  have hreached : Reached tinted :=
    ((tracked_lit.reached.step (.setRoot (some 3)) trivial).step (.setPin 11 _) trivial).step
      (.setPin 6 _) trivial
  have hsavable : tinted.Savable := ⟨by decide +kernel, by decide +kernel⟩
  have hdraw : .draw ⟨3, 4, 6, 8, #v[0, 0, 0], [⟨11, "tint", .float3⟩], 1⟩ ∈ tinted.nodes := by
    decide +kernel
  exact ⟨hreached, hsavable, ⟨_, hdraw, rfl, List.mem_cons_self⟩, by decide +kernel,
    by decide +kernel, by decide +kernel, by decide +kernel, _,
    hreached.load_save_eq hsavable tinted, by decide +kernel, by decide +kernel⟩

end Editor

end DrawGraph
