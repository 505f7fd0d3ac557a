import DrawGraph.Proofs.Document.Lines

/-!
# Rounds of reading

Nodes, edges, UI nodes and the inputs of a draw node are read in rounds, as many as a count says. A
round takes a line at least or is the last, so there are hardly more rounds than lines to come; and
of counts beyond the number of these lines all are as good as one another.
-/

namespace DrawGraph

open Reading Document

section Loop

variable {ε σ β : Type} {body : β → Attempt ε σ (ForInStep β)}

/-- Rounds of work on a value, up to a number of them. A round may be the last before that. -/
def loop (body : β → Attempt ε σ (ForInStep β)) (b : β) : Nat → Attempt ε σ β
  | 0 => return b
  | n + 1 => do
    match ← body b with
    | .done b => return b
    | .yield b => loop body b n

/-- How many rounds are begun. -/
def rounds (body : β → Attempt ε σ (ForInStep β)) (b : β) (s : σ) : Nat → Nat
  | 0 => 0
  | n + 1 =>
    match (body b).on s with
    | (.ok (.yield b), s) => rounds body b s n + 1
    | _ => 1

end Loop

/-- A line at least of those to come has been taken. -/
def Reader.Past (r r' : Reader) : Prop := ∃ l ls, r.rest = l :: ls ∧ r'.rest <:+ ls

theorem Reader.Past.length_lt {r r' : Reader} (h : r.Past r') :
    r'.rest.length < r.rest.length := by
  obtain ⟨l, ls, hrest, hsuffix⟩ := h
  rw [hrest, List.length_cons]
  exact Nat.lt_succ_of_le hsuffix.length_le

/-- A round that is not the last takes a line. -/
def TakesLines {ε β : Type} (body : β → Attempt ε Reader (ForInStep β)) : Prop :=
  ∀ b r b' r', (body b).on r = (.ok (.yield b'), r') → r.Past r'

namespace TakesLines

variable {ε β : Type} {body : β → Attempt ε Reader (ForInStep β)} {b b' : β} {r r' : Reader}

/-- The lines to come run out, however many rounds there might be. -/
theorem rounds_le (h : TakesLines body) (b : β) (r : Reader) (n : Nat) :
    rounds body b r n ≤ r.rest.length + 1 := by
  induction n generalizing b r with
  | zero => exact Nat.zero_le _
  | succ n ih =>
      rw [rounds]
      split
      · next b' r' hon =>
        have hlt := (h _ _ _ _ hon).length_lt
        have hrest := ih b' r'
        omega
      · exact Nat.le_add_left 1 _

/-- All numbers of rounds beyond that of the lines to come do the same. -/
theorem loop_on_eq (h : TakesLines body) {n n' : Nat} (hn : r.rest.length < n)
    (hn' : r.rest.length < n') : (loop body b n).on r = (loop body b n').on r := by
  induction n generalizing b r n' with
  | zero => exact absurd hn (Nat.not_lt_zero _)
  | succ n ih =>
      obtain ⟨m, rfl⟩ := Nat.exists_eq_succ_of_ne_zero (Nat.ne_zero_of_lt hn')
      rw [loop, loop, Attempt.on_bind, Attempt.on_bind]
      split
      · next step r' hon =>
        cases step with
        | done b => rfl
        | yield b' =>
            have hlt := (h _ _ _ _ hon).length_lt
            exact ih (by omega) (by omega)
      · rfl

end TakesLines

/-- The reading goes in rounds, as many as the count. A round that is not the last takes a line, at
most one more is begun than there are lines to come, and all counts beyond these do the same. -/
structure GoesInRounds {ε β : Type} (x : Nat → Attempt ε Reader β)
    (body : β → Attempt ε Reader (ForInStep β)) (b : β) : Prop where
  eq_loop : ∀ n, x n = loop body b n
  takesLines : TakesLines body
  rounds_le : ∀ r n, rounds body b r n ≤ r.rest.length + 1
  on_eq : ∀ r n n', r.rest.length < n → r.rest.length < n' → (x n).on r = (x n').on r

theorem TakesLines.goesInRounds {ε β : Type} {x : Nat → Attempt ε Reader β}
    {body : β → Attempt ε Reader (ForInStep β)} {b : β} (h : TakesLines body)
    (hx : ∀ n, x n = loop body b n) : GoesInRounds x body b where
  eq_loop := hx
  takesLines := h
  rounds_le := h.rounds_le b
  on_eq r n n' hn hn' := by
    rw [hx, hx]
    exact h.loop_on_eq hn hn'

/-! ## Readings go on over the lines -/

/-- However it ends, a reading has only moved on over the lines to come. -/
def Advances {ε α : Type} (x : Attempt ε Reader α) : Prop := ∀ r, (x.on r).2.rest <:+ r.rest

section Advances

variable {ε α β : Type}

theorem Reading.Inline.advances {x : Reading α} (hx : Inline x) : Advances x := by
  intro r
  obtain ⟨result, left, _, hon⟩ := hx r.words
  have hrest : (x.on r).2.rest = r.rest := congrArg (fun p => p.2.rest) (hon r.line r.rest)
  exact hrest ▸ List.suffix_rfl

theorem Advances.bind {x : Attempt ε Reader α} {f : α → Attempt ε Reader β} (hx : Advances x)
    (hf : ∀ a, Advances (f a)) : Advances (x >>= f) := by
  intro r
  have hr := hx r
  rw [Attempt.on_bind]
  split
  · next a t h =>
    rw [h] at hr
    exact (hf a t).trans hr
  · next e t h =>
    rw [h] at hr
    exact hr

theorem advances_pure (a : α) : Advances (pure a : Attempt ε Reader α) := fun _ => List.suffix_rfl

theorem advances_nextLine : Advances nextLine := by
  rintro ⟨line, words, rest⟩
  cases rest with
  | nil => exact List.suffix_rfl
  | cons l ls => exact List.suffix_cons l ls

/-- A reading that ends in a value takes a line. -/
def TakesLine (x : Attempt ε Reader α) : Prop := ∀ r a r', x.on r = (.ok a, r') → r.Past r'

theorem takesLine_nextLine {x : Reading α} (hx : Advances x) :
    TakesLine (nextLine >>= fun _ => x) := by
  rintro ⟨line, words, rest⟩ a r' h
  cases rest with
  | nil =>
      rw [Attempt.on_bind_of_error (nextLine_on_nil line words)] at h
      cases h
  | cons l ls =>
      obtain ⟨i, ws⟩ := l
      rw [Attempt.on_bind_of_ok (nextLine_on_cons line words i ws ls)] at h
      refine ⟨(i, ws), ls, rfl, ?_⟩
      have hr := hx ⟨i, ws, ls⟩
      rwa [h] at hr

theorem Reading.OneLine.takesLine {x : Reading α} (hx : OneLine x) : TakesLine x := by
  obtain ⟨y, rfl, hy, _⟩ := hx
  exact takesLine_nextLine hy.advances

theorem TakesLine.bind {x : Attempt ε Reader α} {f : α → Attempt ε Reader β} (hx : TakesLine x)
    (hf : ∀ a, Advances (f a)) : TakesLine (x >>= f) := by
  intro r b r' h
  obtain ⟨a, t, hon, hrest⟩ := Attempt.on_bind_eq_ok h
  obtain ⟨l, ls, hl, hsuffix⟩ := hx r a t hon
  refine ⟨l, ls, hl, List.IsSuffix.trans ?_ hsuffix⟩
  have ht := hf a t
  rwa [hrest] at ht

theorem Document.parsing_on (x : Reading α) (r : Reader) :
    (parsing x).on r = ((x.on r).1.mapError .parse, (x.on r).2) := rfl

theorem TakesLine.parsing {x : Reading α} (hx : TakesLine x) : TakesLine (parsing x) := by
  intro r a r' h
  rw [parsing_on] at h
  cases hres : x.on r with
  | mk result t =>
    rw [hres] at h
    cases result with
    | error e => cases h
    | ok b =>
        cases h
        exact hx _ _ _ hres

/-- A step that takes a line if it succeeds is a round. -/
theorem takesLines_of_takesLine {body : β → Attempt ε Reader (ForInStep β)}
    (h : ∀ b, TakesLine (body b)) : TakesLines body :=
  fun b r b' r' hon => h b r (.yield b') r' hon

theorem Advances.caught {x : Attempt ε Reader α} {f : ε → Attempt ε Reader α} (hx : Advances x)
    (hf : ∀ e, Advances (f e)) : Advances (tryCatch x f) := by
  intro r
  have hr := hx r
  rw [Attempt.on_tryCatch]
  split
  · next a t h =>
    rw [h] at hr
    exact hr
  · next e t h =>
    rw [h] at hr
    exact (hf e t).trans hr

theorem suffix_skipFrom (keyword : Word) (line : Nat) (words : List Word)
    (rest : List (Nat × List Word)) : (Reader.skipFrom keyword line words rest).rest <:+ rest := by
  induction rest generalizing line words with
  | nil => exact List.suffix_rfl
  | cons l rest ih =>
      rw [Reader.skipFrom]
      split
      · exact List.suffix_rfl
      · exact (ih l.1 []).trans (List.suffix_cons l rest)

theorem advances_skipUntil (keyword : Word) :
    Advances (modify fun r : Reader => r.skipUntil keyword : Attempt ε Reader PUnit) :=
  fun r => suffix_skipFrom keyword r.line r.words r.rest

end Advances

namespace UiNode

def bindingRound (bindings : List Binding) : Reading (ForInStep (List Binding)) := do
  return .yield (bindings ++ [← readBinding])

theorem takesLines_bindingRound : TakesLines bindingRound :=
  takesLines_of_takesLine fun _ => oneLine_readBinding.takesLine.bind fun _ => advances_pure _

theorem loop_bindingRound (bindings : List Binding) (n : Nat) :
    loop bindingRound bindings n = (do return bindings ++ (← readBindings n)) := by
  induction n generalizing bindings with
  | zero => simp [loop, readBindings]
  | succ n ih =>
      simp only [loop, readBindings, bindingRound, ih, bind_assoc, pure_bind, List.append_assoc,
        List.singleton_append]

theorem goesInRounds_readBindings : GoesInRounds readBindings bindingRound [] := by
  refine takesLines_bindingRound.goesInRounds fun n => ?_
  rw [loop_bindingRound]
  simp

theorem advances_readBindings (n : Nat) : Advances (readBindings n) := by
  induction n with
  | zero => exact advances_pure _
  | succ n ih =>
      refine Advances.bind ?_ fun _ => ih.bind fun _ => advances_pure _
      obtain ⟨y, hy, hinline, _⟩ := oneLine_readBinding
      rw [hy]
      exact advances_nextLine.bind fun _ => hinline.advances

theorem advances_read (kind : UiNodeKind) : Advances (read kind) := by
  by_cases hdraw : kind = .draw
  · subst hdraw
    iterate 4 refine (inline_form _ _).advances.bind fun _ => ?_
    refine (inline_form _ _).advances.bind fun count => ?_
    refine (inline_numbers 3).advances.bind fun _ => ?_
    exact (advances_readBindings count).bind fun _ => advances_pure _
  · exact (inline_read hdraw).advances

end UiNode

namespace Document

def nodeRound (g : Graph) : Loading (ForInStep Graph) := do
  let (id, node) ← parsing readNode
  return .yield (← accept (g.restoreNode id node))

def edgeRound (g : Graph) : Loading (ForInStep Graph) := do
  let e ← parsing readEdge
  return .yield (← accept (g.restoreEdge e))

def uiRound (g : Graph) (nodes : List UiNode) : Reading (ForInStep (List UiNode)) := do
  if (← get).atEnd then return .done nodes
  match ← readUiNode with
  | none => return .yield nodes
  | some node =>
    if resolves g node && !nodes.any (·.id == node.id) then return .yield (nodes ++ [node])
    else return .yield nodes

theorem advances_accept {α : Type} (r : Except GraphError α) : Advances (accept r) := by
  cases r <;> exact fun _ => List.suffix_rfl

theorem goesInRounds_readNodes (g : Graph) : GoesInRounds (readNodes g) nodeRound g := by
  have htakes : TakesLines nodeRound :=
    takesLines_of_takesLine fun _ => oneLine_readNode.takesLine.parsing.bind fun _ =>
      (advances_accept _).bind fun _ => advances_pure _
  refine htakes.goesInRounds fun n => ?_
  induction n generalizing g with
  | zero => rfl
  | succ n ih => simp [readNodes, loop, nodeRound, ih]

theorem goesInRounds_readEdges (g : Graph) : GoesInRounds (readEdges g) edgeRound g := by
  have htakes : TakesLines edgeRound :=
    takesLines_of_takesLine fun _ => oneLine_readEdge.takesLine.parsing.bind fun _ =>
      (advances_accept _).bind fun _ => advances_pure _
  refine htakes.goesInRounds fun n => ?_
  induction n generalizing g with
  | zero => rfl
  | succ n ih => simp [readEdges, loop, edgeRound, ih]

/-! ## Rounds that pass over records -/

/-- Pass over lines up to the next record. -/
def passOver : Reading (Option UiNode) := do
  modify fun r : Reader => r.skipUntil uiWord.toList
  return none

/-- Read what follows the tag of a record, or pass over it. -/
def readTagged (tag : UInt32) : Reading (Option UiNode) :=
  match UiNodeKind.ofTag? tag.toNat with
  | none => passOver
  | some kind => tryCatch (do return some (← UiNode.read kind)) fun _ => passOver

theorem readUiNode_eq : readUiNode = (nextLine >>= fun _ => do
    keyword uiWord
    let tag ← unsigned
    readTagged tag) := by
  unfold readUiNode
  refine bind_congr fun _ => bind_congr fun _ => bind_congr fun tag => ?_
  unfold readTagged
  cases UiNodeKind.ofTag? tag.toNat with
  | none => rfl
  | some kind =>
      refine Attempt.ext_on fun r => ?_
      dsimp only
      rw [Attempt.on_tryCatch, Attempt.on_bind, Attempt.on_bind, Attempt.on_tryCatch,
        Attempt.on_bind]
      cases h : (UiNode.read kind).on r with
      | mk result r' => cases result <;> rfl

theorem advances_passOver : Advances passOver :=
  (advances_skipUntil _).bind fun _ => advances_pure _

theorem advances_readTagged (tag : UInt32) : Advances (readTagged tag) := by
  unfold readTagged
  split
  · exact advances_passOver
  · next kind _ =>
    exact ((UiNode.advances_read kind).bind fun _ => advances_pure _).caught fun _ =>
      advances_passOver

theorem takesLine_readUiNode : TakesLine readUiNode := by
  rw [readUiNode_eq]
  apply takesLine_nextLine
  refine (inline_keyword _).advances.bind fun _ => ?_
  exact (inline_form _ _).advances.bind advances_readTagged

/-- A round that passes over a record has taken the line with which it begins. -/
theorem takesLines_uiRound (g : Graph) : TakesLines (uiRound g) := by
  intro nodes r nodes' r' h
  rw [uiRound, Attempt.on_bind_of_ok (Attempt.on_get r)] at h
  split at h
  · cases h
  · obtain ⟨found, t, hread, hrest⟩ := Attempt.on_bind_eq_ok h
    obtain rfl : t = r' := by
      cases found with
      | none => exact (Prod.mk.inj hrest).2
      | some node =>
          dsimp only at hrest
          split at hrest <;> exact (Prod.mk.inj hrest).2
    exact takesLine_readUiNode r found t hread

theorem goesInRounds_readUiNodes (g : Graph) (nodes : List UiNode) :
    GoesInRounds (readUiNodes g nodes) (uiRound g) nodes := by
  refine (takesLines_uiRound g).goesInRounds fun n => ?_
  induction n generalizing nodes with
  | zero => rfl
  | succ n ih =>
      rw [readUiNodes, loop, uiRound, bind_assoc]
      refine bind_congr fun r => ?_
      split
      · rfl
      · rw [bind_assoc]
        refine bind_congr fun found => ?_
        cases found with
        | none => exact ih nodes
        | some node =>
            dsimp only
            split
            · exact ih _
            · exact ih _

end Document

end DrawGraph
