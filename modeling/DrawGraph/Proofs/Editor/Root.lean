import DrawGraph.Proofs.Editor.Opened

/-!
# Roots that are gone

An editor takes any node for its root, and forgets the root when the UI node goes whose identity it
is. A pin goes with its UI node too, or when a draw node drops its inputs, and then nobody asks
whether it was the root. That is the only way for a root to dangle.
-/

namespace DrawGraph

namespace Editor

variable {services : Services} {settings : EvalSettings} {rs : List Request}

/-- The editor that requests lead to from a new one. -/
def asked (services : Services) (settings : EvalSettings) (rs : List Request) : Editor :=
  rs.foldl Request.apply (.new services settings)

theorem asked_concat (rs : List Request) (r : Request) :
    asked services settings (rs ++ [r]) = r.apply (asked services settings rs) := by
  rw [asked, List.foldl_append]
  rfl

theorem opened_asked (rs : List Request) : Opened (asked services settings rs) := by
  induction rs using List.reverseRecOn with
  | nil => exact .new services settings
  | append_singleton rs r ih => exact asked_concat rs r ▸ ih.step r

/-- The request `r` drops a pin that is the root, and leaves it the root. -/
structure DropsRoot (e : Editor) (r : Request) (root : Id) : Prop where
  isRoot : e.root = some root
  live : e.graph.hasNode root
  pin : ∃ n ∈ e.nodes, root ∈ n.pins
  kept : (r.apply e).root = some root
  gone : (r.apply e).graph.hasNode root = false

/-- A root that is no node was a pin when some request dropped it. -/
theorem dropsRoot_of_dangling {root : Id} (hroot : (asked services settings rs).root = some root)
    (hgone : (asked services settings rs).graph.hasNode root = false) :
    ∃ before r after, rs = before ++ r :: after ∧
      (asked services settings before).DropsRoot r root := by
  induction rs using List.reverseRecOn with
  | nil => cases hroot
  | append_singleton rs r ih =>
      rw [asked_concat] at hroot hgone
      have hheld := (opened_asked rs).holdsRoot r root hroot
      rw [hgone] at hheld
      obtain ⟨hbefore, hpin⟩ := hheld.resolve_left nofun
      -- the last request dropped the root, unless it was gone before
      cases hlive : (asked services settings rs).graph.hasNode root with
      | true => exact ⟨rs, r, [], rfl, hbefore, hlive, hpin hlive, hroot, hgone⟩
      | false =>
          obtain ⟨before, r', after, rfl, hdrops⟩ := ih hbefore hlive
          exact ⟨before, r', after ++ [r], by simp, hdrops⟩

/-- A number is removed whose output is the root. -/
def unplugged : List Request :=
  [.operate (.addNode .scalar), .operate (.setRoot (some 1)), .operate (.removeNode 0)]

theorem dropsRoot_unplugged : (asked {} {} unplugged).root = some 1 ∧
    (asked {} {} unplugged).graph.hasNode 1 = false ∧
      ∃ before r after, unplugged = before ++ r :: after ∧ (asked {} {} before).DropsRoot r 1 := by
  have hroot : (asked {} {} unplugged).root = some 1 := by decide +kernel
  have hgone : (asked {} {} unplugged).graph.hasNode 1 = false := by decide +kernel
  exact ⟨hroot, hgone, dropsRoot_of_dangling hroot hgone⟩

end Editor

end DrawGraph
