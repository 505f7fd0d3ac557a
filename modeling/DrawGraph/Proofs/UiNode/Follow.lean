import DrawGraph.Proofs.UiNode.Conduct
import DrawGraph.Proofs.UiNode.React

/-!
# Draw nodes that follow their shaders

The bindings of a draw node are the variables of the shader that it is bound to, and that shader is
the one whose index is in the box of its shader pin. Both outlast whatever the draw node does, as
long as no id is refused to it.
-/

namespace DrawGraph

open Scene

namespace Draw

variable {d : Draw} {s s' : Scene} {shader : Int32}

/-- The bindings are the variables of the bound shader. -/
def Fits (d : Draw) (s : Scene) : Prop :=
  d.bindings.map (fun b => (b.name, b.type)) = reflected s d.bound

theorem reflected_of_shaders (h : s'.services.shaders = s.services.shaders) (shader : Int32) :
    reflected s' shader = reflected s shader := by
  rw [reflected, h, reflected]

theorem reflected_of_neg (s : Scene) (h : shader < 0) : reflected s shader = [] := if_pos h

theorem Fits.of_shaders (hd : d.Fits s) (h : s'.services.shaders = s.services.shaders) :
    d.Fits s' := by
  rw [Fits, reflected_of_shaders h]
  exact hd

theorem shaders_sync (d : Draw) (s : Scene) (shader : Int32) :
    (d.sync s shader).2.services.shaders = s.services.shaders := by
  have hmoves : Moves (· = d.id) (fun _ => True) s (d.sync s shader).2 :=
    d.moves_sync s shader fun _ _ => trivial
  exact hmoves.shaders

theorem fits_sync (hserved : d.SyncServed s shader) :
    (d.sync s shader).1.Fits (d.sync s shader).2 := by
  obtain ⟨bs, hd, hbs⟩ := d.sync_eq s shader
  rw [syncServed_iff, hd] at hserved
  rw [Fits, reflected_of_shaders (d.shaders_sync s shader), hd]
  exact hbs.eq_of_length (by rw [List.length_map, hserved])

/-- A draw node that has dropped its bindings is bound to nothing. -/
theorem fits_nothing (hd : d.bindings = []) (hbound : d.bound = noIndex) : d.Fits s := by
  have hneg : noIndex < 0 := by decide
  rw [Fits, hd, hbound, reflected_of_neg s hneg, List.map_nil]

theorem Fits.onEvent (h : d.Fits s) {event : Event} (hserved : d.EventServed s event) :
    (d.onEvent s event).1.Fits (d.onEvent s event).2 := by
  unfold Draw.onEvent
  cases event with
  | linkCreated source target =>
      dsimp only
      split
      · next hsource => exact fits_sync (hserved hsource)
      · exact h
  | linkDeleted source target =>
      dsimp only
      split
      · exact fits_nothing rfl rfl
      · exact h
  | shaderUpdated shader =>
      dsimp only
      split
      · next hshader => exact fits_sync (hserved hshader)
      · exact h

/-! ## The index in the shader's pin -/

/-- A draw node whose shader pin is linked is bound to the shader of the index in the pin's box. -/
def Indexed (d : Draw) (s : Scene) : Prop :=
  s.graph.neighbors d.shader ≠ [] → d.bound = s.indexIn d.shader

/-- The shader pin is there, and it is neither the identity nor the pin of a binding. -/
structure Apart (d : Draw) (s : Scene) : Prop where
  shader_lt : d.shader < s.graph.nextId
  pin_lt : ∀ b ∈ d.bindings, b.pin < s.graph.nextId
  shader_ne : d.shader ≠ d.id
  pin_ne : ∀ b ∈ d.bindings, b.pin ≠ d.shader

theorem Apart.of_nextId (h : d.Apart s) (hnext : s'.graph.nextId = s.graph.nextId) :
    d.Apart s' := by
  constructor
  · exact hnext ▸ h.shader_lt
  · exact hnext ▸ h.pin_lt
  · exact h.shader_ne
  · exact h.pin_ne

theorem Apart.spares (h : d.Apart s) (hs : s.Tidy)
    (hmoves : Moves (· = d.id) (fun p => ∃ b ∈ d.bindings, p = b.pin) s s') :
    Spares d.shader s s' := by
  refine hmoves.spares hs.ordered.consistent h.shader_lt h.shader_ne ?_
  rintro ⟨b, hb, hpin⟩
  exact h.pin_ne b hb hpin.symm

theorem Apart.spares_sync (h : d.Apart s) (hs : s.Tidy) (shader : Int32) :
    Spares d.shader s (d.sync s shader).2 :=
  h.spares hs (d.moves_sync s shader fun b hb => ⟨b, hb, rfl⟩)

theorem Apart.spares_teardown (h : d.Apart s) (hs : s.Tidy) :
    Spares d.shader s (d.teardown s).2 :=
  h.spares hs (d.moves_teardown s fun b hb => ⟨b, hb, rfl⟩)

theorem indexIn_of_box {pin : Id} (h : s'.values.get? pin = s.values.get? pin) :
    s'.indexIn pin = s.indexIn pin := by
  rw [indexIn, h, indexIn]

theorem indexIn_write (s : Scene) (pin : Id) (n : Int32) :
    (s.write pin (.int n)).indexIn pin = n := by
  rw [indexIn, get?_write, if_pos rfl]

/-- What a pin still leads to it led to before. -/
theorem linked_of_spares {pin : Id} (h : Spares pin s s') (hlinked : s'.graph.neighbors pin ≠ []) :
    s.graph.neighbors pin ≠ [] := by
  intro hnil
  have hsub := h.targets
  rw [hnil, List.sublist_nil] at hsub
  exact hlinked hsub

theorem indexed_sync (h : d.Apart s) (hs : s.Tidy) (hshader : s.indexIn d.shader = shader) :
    (d.sync s shader).1.Indexed (d.sync s shader).2 := by
  obtain ⟨bs, hd, _⟩ := d.sync_eq s shader
  intro _
  rw [hd]
  exact hshader.symm.trans (indexIn_of_box (h.spares_sync hs shader).box).symm

theorem Indexed.onEvent (hd : d.Indexed s) (h : d.Apart s) (hs : s.Tidy) (event : Event) :
    (d.onEvent s event).1.Indexed (d.onEvent s event).2 := by
  have hwritten (n : Int32) : d.Apart (s.write d.shader (.int n)) ∧
      (s.write d.shader (.int n)).Tidy := by
    refine ⟨h.of_nextId (nextId_write ..), ?_⟩
    have hmove : Move (fun _ => False) (· = d.shader) s (s.write d.shader (.int n)) := .write _ rfl
    apply hmove.tidy hs
    rintro p rfl
    exact h.shader_lt
  unfold Draw.onEvent
  cases event with
  | linkCreated source target =>
      dsimp only
      split
      · obtain ⟨hapart, htidy⟩ := hwritten (((s.values.get? target).bind Value.index?).getD noIndex)
        exact indexed_sync hapart htidy (indexIn_write ..)
      · exact hd
  | linkDeleted source target =>
      dsimp only
      split
      · obtain ⟨hapart, htidy⟩ := hwritten noIndex
        intro _
        have hbox := indexIn_of_box (hapart.spares_teardown htidy).box
        rw [indexIn_write] at hbox
        exact hbox.symm
      · exact hd
  | shaderUpdated shader =>
      dsimp only
      split
      · next hshader =>
        intro hlinked
        obtain ⟨bs, hsync, _⟩ := d.sync_eq s shader
        have hspares := h.spares_sync hs shader
        rw [hsync] at hlinked ⊢
        have hbefore := hd (linked_of_spares hspares hlinked)
        change shader = (d.sync s shader).2.indexIn d.shader
        rw [indexIn_of_box hspares.box, ← hbefore]
        exact hshader.2
      · exact hd

end Draw

namespace UiNode

variable {n : UiNode} {d : Draw} {s : Scene} {clock : Clock}

theorem eq_draw_of_onEvent {event : Event} (h : (n.onEvent event s).1 = draw d) :
    ∃ d₀, n = draw d₀ ∧ d = (d₀.onEvent s event).1 := by
  cases n with
  | draw d₀ => exact ⟨d₀, rfl, (draw.inj h).symm⟩
  | renderTarget id input ready => cases event <;> cases h
  | _ => cases h

theorem eq_draw_of_onUpdate (h : (n.onUpdate clock s).1 = draw d) : ∃ d₀, n = draw d₀ := by
  cases n with
  | draw d₀ => exact ⟨d₀, rfl⟩
  | _ => cases h

theorem source?_eq_none_iff (hs : s.Tidy) (pin : Id) :
    s.source? pin = none ↔ s.graph.neighbors pin = [] := by
  have hcount := hs.ordered.consistent.outDegree_eq_zero_iff (n := pin)
  unfold Scene.source?
  split
  · next h => simp [hcount.1 h]
  · next h =>
    rw [hcount] at h
    simp [h]

/-- A draw node that takes over what is linked to it fits its shader again. -/
theorem fits_onUpdate (hd : d.Fits s) (hserved : (draw d).UpdateServed s) {d' : Draw}
    (h : ((draw d).onUpdate clock s).1 = draw d') : d'.Fits ((draw d).onUpdate clock s).2 := by
  have hpulled : Moves (· = d.id) (fun _ => True) s ((draw d).inputs.foldl pull s) :=
    moves_foldl_pull s fun _ _ => trivial
  revert h
  unfold onUpdate
  dsimp only
  split
  · rintro ⟨⟩
    exact hd.of_shaders hpulled.shaders
  · next hlinked =>
    split
    · rintro ⟨⟩
      exact hd.of_shaders hpulled.shaders
    · next hbound =>
      rintro ⟨⟩
      have hlinked : (((draw d).inputs.foldl pull s).source? d.shader).isSome := by
        rwa [Bool.not_eq_true, Option.isNone_eq_false_iff] at hlinked
      exact Draw.fits_sync (hserved d rfl hlinked hbound)

/-- Taking over the index of the linked shader binds the draw node to it. -/
theorem indexed_onUpdate (hd : d.Apart s) (hs : s.Tidy) (hpins : ∀ p ∈ (draw d).inputs,
    p < s.graph.nextId) {d' : Draw} (h : ((draw d).onUpdate clock s).1 = draw d') :
    d'.Indexed ((draw d).onUpdate clock s).2 := by
  have hpulled : Moves (fun _ => False) (· ∈ (draw d).inputs) s ((draw d).inputs.foldl pull s) :=
    moves_foldl_pull s fun _ hp => hp
  have htidy := hpulled.tidy hs hpins
  have hapart : d.Apart ((draw d).inputs.foldl pull s) := hd.of_nextId (nextId_foldl_pull _ s)
  revert h
  unfold onUpdate
  dsimp only
  split
  · next hlinked =>
    rintro ⟨⟩ hne
    rw [Option.isNone_iff_eq_none, source?_eq_none_iff htidy] at hlinked
    exact absurd hlinked hne
  · split
    · next hbound =>
      rintro ⟨⟩ _
      exact hbound.symm
    · rintro ⟨⟩
      exact Draw.indexed_sync hapart htidy rfl

end UiNode

end DrawGraph
