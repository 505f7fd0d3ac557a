import DrawGraph.Graph.Edge

/-!
# The event bus

The observers of events, each once, in the order in which they were attached. An event goes to
all of them in that order.
-/

namespace DrawGraph

abbrev Bus := List Id

namespace Bus

/-- Attach an observer; the flag says that it was not attached before. -/
def attach (b : Bus) (id : Id) : Bus × Bool :=
  if id ∈ b then (b, false) else (b ++ [id], true)

/-- Detach an observer; the flag says that it was attached. -/
def detach (b : Bus) (id : Id) : Bus × Bool := (b.erase id, id ∈ b)

theorem nodup_attach {b : Bus} (h : b.Nodup) (id : Id) : (b.attach id).1.Nodup := by
  unfold attach
  split
  · exact h
  · next hid =>
    refine List.nodup_append.2 ⟨h, by simp, fun a ha c hc hac => hid ?_⟩
    simp_all

theorem nodup_detach {b : Bus} (h : b.Nodup) (id : Id) : (b.detach id).1.Nodup :=
  h.erase id

end Bus

end DrawGraph
