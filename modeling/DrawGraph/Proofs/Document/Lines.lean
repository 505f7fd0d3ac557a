import DrawGraph.Document.Basic
import DrawGraph.Proofs.Record.Inline

/-!
# Readings of one line

Most of a document is read line by line, each line by itself. What is read so balks at a line that
starts the record of a UI node: it fails on the first word, whatever words come after that.
-/

namespace DrawGraph

open Reading Document

variable {α β : Type}

namespace Reading

/-- On a line that starts the record of a UI node the reading fails with its first word. -/
def Balks (x : Reading α) : Prop :=
  ∃ f, ∀ line vs rest, x.on ⟨line, uiWord.toList :: vs, rest⟩ = (.error ⟨line, f⟩, ⟨line, vs, rest⟩)

theorem Balks.bind {x : Reading α} (hx : Balks x) (f : α → Reading β) : Balks (x >>= f) := by
  obtain ⟨fault, hon⟩ := hx
  exact ⟨fault, fun line vs rest => Attempt.on_bind_of_error (hon line vs rest)⟩

theorem balks_keyword {expected : String} (h : uiWord.toList ≠ expected.toList) :
    Balks (keyword expected) := by
  refine ⟨.keyword expected uiWord, fun line vs rest => ?_⟩
  have hword : word.on ⟨line, uiWord.toList :: vs, rest⟩ =
      (.ok uiWord.toList, ⟨line, vs, rest⟩) := rfl
  rw [keyword, Attempt.on_bind_of_ok hword, if_neg h]
  rfl

theorem balks_form (expected : String) {read : Word → Option α} (h : read uiWord.toList = none) :
    Balks (form expected read) := by
  refine ⟨.form expected uiWord, fun line vs rest => ?_⟩
  have hword : word.on ⟨line, uiWord.toList :: vs, rest⟩ =
      (.ok uiWord.toList, ⟨line, vs, rest⟩) := rfl
  rw [form, Attempt.on_bind_of_ok hword, h]
  rfl

theorem balks_ident : Balks ident := balks_form _ (by decide)

theorem balks_unsigned : Balks unsigned := balks_form _ (by decide)

theorem balks_count : Balks count := balks_form _ (by decide)

theorem balks_optionalId : Balks optionalId := by
  refine ⟨.form "a node id" uiWord, fun line vs rest => ?_⟩
  have hword : word.on ⟨line, uiWord.toList :: vs, rest⟩ =
      (.ok uiWord.toList, ⟨line, vs, rest⟩) := rfl
  have hint : Text.int64? uiWord.toList = none := by decide
  rw [optionalId, Attempt.on_bind_of_ok hword, if_neg (by decide), hint]
  rfl

/-- The reading begins a line, reads on within it and balks where it starts a record. -/
def OneLine (x : Reading α) : Prop :=
  ∃ y : Reading α, x = (nextLine >>= fun _ => y) ∧ Inline y ∧ Balks y

theorem OneLine.of_nextLine {y : Reading α} (hy : Inline y) (hbalks : Balks y) :
    OneLine (nextLine >>= fun _ => y) :=
  ⟨y, rfl, hy, hbalks⟩

end Reading

namespace UiNode

theorem oneLine_readBinding : OneLine readBinding := by
  refine .of_nextLine ?_ (balks_ident.bind _)
  refine (inline_form _ _).bind fun pin => ?_
  refine inline_string.bind fun name => ?_
  refine inline_string.bind fun typeName => ?_
  split
  · exact inline_pure _
  · exact inline_fail (by simp)

end UiNode

namespace Document

theorem oneLine_readNode : OneLine readNode := by
  refine .of_nextLine ?_ ((balks_keyword (by decide)).bind _)
  refine (inline_keyword _).bind fun _ => ?_
  refine (inline_form _ _).bind fun id => ?_
  refine (inline_tagged _ _).bind fun type => ?_
  refine (inline_tagged _ _).bind fun direction => ?_
  exact (inline_form _ _).bind_pure

theorem oneLine_readEdge : OneLine readEdge := by
  refine .of_nextLine ?_ ((balks_keyword (by decide)).bind _)
  refine (inline_keyword _).bind fun _ => ?_
  refine (inline_form _ _).bind fun id => ?_
  refine (inline_form _ _).bind fun source => ?_
  refine (inline_form _ _).bind fun target => ?_
  exact (inline_tagged _ _).bind_pure

theorem oneLine_readCount : OneLine readCount := .of_nextLine (inline_form _ _) balks_count

/-- The header is two lines, one after the other. -/
theorem readHeader_eq : ∃ x : Reading Unit, ∃ y : Reading Id, OneLine x ∧ OneLine y ∧
    readHeader = (x >>= fun _ => y) := by
  refine ⟨nextLine >>= fun _ => keyword graphHeader, nextLine >>= fun _ => unsigned,
    .of_nextLine (inline_keyword _) (balks_keyword (by decide)),
    .of_nextLine (inline_form _ _) balks_unsigned, ?_⟩
  rw [bind_assoc]
  rfl

theorem readRoot_eq : ∃ x : Reading Unit, ∃ y : Reading (Option Id), OneLine x ∧ OneLine y ∧
    readRoot = (x >>= fun _ => y) := by
  refine ⟨nextLine >>= fun _ => keyword uiHeader, nextLine >>= fun _ => optionalId,
    .of_nextLine (inline_keyword _) (balks_keyword (by decide)),
    .of_nextLine inline_optionalId balks_optionalId, ?_⟩
  rw [bind_assoc]
  rfl

end Document

end DrawGraph
