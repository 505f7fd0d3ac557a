import DrawGraph.Proofs.Attempt
import DrawGraph.Record.Reader
import DrawGraph.UiNode.Record

/-!
# Readings within a line

A reading within a line takes words from the current line and knows nothing of the lines to come. So
what it gives, the fault that it meets and the words that it leaves depend on these words alone.
-/

namespace DrawGraph

namespace Reading

variable {α β : Type} {x : Reading α}

def Inline (x : Reading α) : Prop :=
  ∀ words, ∃ (result : Except Fault α) (left : List Word), result ≠ .error .endOfDocument ∧
    ∀ line rest, x.on ⟨line, words, rest⟩ =
      (result.mapError (fun f => ⟨line, f⟩), ⟨line, left, rest⟩)

theorem inline_pure (a : α) : Inline (pure a : Reading α) :=
  fun words => ⟨.ok a, words, by simp, fun _ _ => rfl⟩

theorem inline_fail {f : Fault} (hf : f ≠ .endOfDocument) : Inline (fail f : Reading α) :=
  fun words => ⟨.error f, words, by simpa using hf, fun _ _ => rfl⟩

theorem Inline.bind {f : α → Reading β} (hx : Inline x) (hf : ∀ a, Inline (f a)) :
    Inline (x >>= f) := by
  intro words
  obtain ⟨result, left, hresult, hon⟩ := hx words
  cases result with
  | error e =>
      refine ⟨.error e, left, by simpa using hresult, fun line rest => ?_⟩
      exact Attempt.on_bind_of_error (hon line rest)
  | ok a =>
      obtain ⟨result', left', hresult', hon'⟩ := hf a left
      exact ⟨result', left', hresult', fun line rest =>
        (Attempt.on_bind_of_ok (hon line rest)).trans (hon' line rest)⟩

theorem Inline.bind_pure {f : α → β} (hx : Inline x) : Inline (x >>= fun a => pure (f a)) :=
  hx.bind fun _ => inline_pure _

theorem inline_word : Inline word := by
  intro words
  cases words with
  | nil => exact ⟨.error .endOfLine, [], by simp, fun _ _ => rfl⟩
  | cons w ws => exact ⟨.ok w, ws, by simp, fun _ _ => rfl⟩

theorem inline_keyword (expected : String) : Inline (keyword expected) := by
  apply inline_word.bind
  intro w
  split
  · exact inline_pure _
  · exact inline_fail (by simp)

theorem inline_form (expected : String) (read : Word → Option α) :
    Inline (form expected read) := by
  apply inline_word.bind
  intro w
  split
  · exact inline_pure _
  · exact inline_fail (by simp)

theorem inline_optionalId : Inline optionalId := by
  apply inline_word.bind
  intro w
  split
  · exact inline_pure _
  split
  · exact inline_fail (by simp)
  split
  · exact inline_pure _
  split
  · exact inline_pure _
  · exact inline_fail (by simp)

theorem inline_tagged (table : String) (ofTag? : Nat → Option α) :
    Inline (tagged table ofTag?) := by
  apply (inline_form _ _).bind
  intro n
  split
  · exact inline_pure _
  · exact inline_fail (by simp)

theorem inline_numbers (n : Nat) : Inline (numbers n) := by
  induction n with
  | zero => exact inline_pure _
  | succ n ih => exact ih.bind fun _ => (inline_form _ _).bind_pure

theorem inline_value (k : ValueKind) : Inline (value k) := by
  cases k with
  | float | int => exact (inline_form _ _).bind_pure
  | float2 | float3 | float4 | float4x4 => exact (inline_numbers _).bind_pure

theorem inline_unescaped (w : Word) : Inline (unescaped w) := by
  unfold unescaped
  split
  · exact inline_pure _
  · exact inline_fail (by simp)

theorem inline_string : Inline string := inline_word.bind inline_unescaped

theorem inline_text : Inline text := by
  apply inline_word.bind
  intro w
  split
  · exact inline_pure _
  · exact (inline_unescaped w).bind_pure

/-! ## Lines -/

theorem nextLine_on_nil (line : Nat) (words : List Word) : nextLine.on ⟨line, words, []⟩ =
    (.error ⟨line, .endOfDocument⟩, ⟨line, words, []⟩) := rfl

theorem nextLine_on_cons (line : Nat) (words : List Word) (i : Nat) (ws : List Word)
    (rest : List (Nat × List Word)) :
    nextLine.on ⟨line, words, (i, ws) :: rest⟩ = (.ok (), ⟨i, ws, rest⟩) := rfl

end Reading

namespace UiNode

open Reading

/-- The record of any UI node but a draw node is a single line. -/
theorem inline_read {kind : UiNodeKind} (h : kind ≠ .draw) : Inline (read kind) := by
  have hident : Inline ident := inline_form _ _
  have hnumber : Inline number := inline_form _ _
  have hbinary (op : BinaryOp) : Inline (readBinary op) :=
    hident.bind fun _ => hident.bind fun _ => hident.bind fun _ => hident.bind_pure
  have hconstant (kind : ConstantKind) : Inline (readConstant kind) :=
    hident.bind fun _ => hident.bind fun _ => (inline_value _).bind_pure
  have hasset (kind : AssetKind) : Inline (readAsset kind) :=
    hident.bind fun _ => hident.bind fun _ => inline_text.bind_pure
  cases kind with
  | add | multiply => exact hbinary _
  | scalar | vector2 | vector3 | vector4 | matrix4x4 => exact hconstant _
  | model | texture | shader => exact hasset _
  | sine => exact hident.bind fun _ => hident.bind fun _ => hident.bind_pure
  | time | renderTarget => exact hident.bind fun _ => hident.bind_pure
  | primitive => exact hident.bind fun _ => hident.bind fun _ => (inline_tagged _ _).bind_pure
  | camera =>
      iterate 4 refine hident.bind fun _ => ?_
      iterate 4 refine hnumber.bind fun _ => ?_
      exact (inline_numbers 3).bind fun _ => (inline_numbers 3).bind_pure
  | transform =>
      iterate 5 refine hident.bind fun _ => ?_
      iterate 2 refine (inline_numbers 3).bind fun _ => ?_
      exact (inline_numbers 3).bind_pure
  | draw => exact absurd rfl h

end UiNode

end DrawGraph
