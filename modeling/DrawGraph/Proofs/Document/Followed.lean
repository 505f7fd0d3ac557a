import DrawGraph.Proofs.Document.Lines
import DrawGraph.Proofs.Document.Passing

/-!
# Reading where more lines follow

A reading that succeeds does the same when more lines follow than those that it knew of. One that
fails within its lines fails there too; and the reading of a record that runs out of lines takes the
first line of the next record for one of its own, and then fails.
-/

namespace DrawGraph

open Reading

/-- One reader is where the other is, with more lines to come. -/
structure Reader.Followed (r : Reader) (ls : List (List Word)) (s : Reader) : Prop where
  words : s.words = r.words
  ahead : s.ahead = r.ahead ++ ls

section Extends

variable {ε ε' α β : Type} {x : Attempt ε Reader α} {r s : Reader} {ls : List (List Word)}

/-- What succeeds does the same when more lines follow. -/
def Extends (x : Attempt ε Reader α) : Prop :=
  ∀ (r s : Reader) ls, r.Followed ls s → ∀ a r', x.on r = (.ok a, r') →
    ∃ s', x.on s = (.ok a, s') ∧ r'.Followed ls s'

theorem extends_pure (a : α) : Extends (pure a : Attempt ε Reader α) := by
  intro r s ls hs b r' h
  cases h
  exact ⟨s, rfl, hs⟩

theorem Extends.bind {f : α → Attempt ε Reader β} (hx : Extends x) (hf : ∀ a, Extends (f a)) :
    Extends (x >>= f) := by
  intro r s ls hs b r' h
  obtain ⟨a, t, hx', h⟩ := Attempt.on_bind_eq_ok h
  obtain ⟨t', hx', ht⟩ := hx r s ls hs a t hx'
  obtain ⟨s', hf', hs'⟩ := hf a t t' ls ht b r' h
  exact ⟨s', (Attempt.on_bind_of_ok hx').trans hf', hs'⟩

theorem Extends.parsing {x : Reading α} (hx : Extends x) : Extends (Document.parsing x) := by
  intro r s ls hs a r' h
  rw [Document.parsing, Attempt.on_zoom] at h
  cases hres : x.on r with
  | mk result t =>
    rw [hres] at h
    cases result with
    | error e => cases h
    | ok b =>
        cases h
        obtain ⟨s', hx', hs'⟩ := hx r s ls hs a t hres
        refine ⟨s', ?_, hs'⟩
        rw [Document.parsing, Attempt.on_zoom, hx']
        rfl

theorem extends_nextLine : Extends nextLine := by
  intro r s ls hs a r' h
  have hpage : s.page = (s.words, r.ahead ++ ls) := Prod.ext rfl hs.ahead
  rw [nextLine, Attempt.on_bind_of_ok (Attempt.on_get r)] at h
  split at h
  · cases h
  · next i ws rest hrest =>
    cases h
    rw [Reader.ahead, hrest] at hpage
    obtain ⟨s', hread, hs'⟩ := reads_nextLine _ _ s hpage
    obtain ⟨hwords, hahead⟩ := Prod.mk.inj hs'
    exact ⟨s', hread, hwords, hahead⟩

end Extends

section Confined

variable {α β : Type} {ls : List (List Word)} {x : Reading α}

/-- With the lines `ls` behind, the reading does the same. If it wants more lines than it knew of,
it takes the first of `ls` and fails. -/
def Confined (ls : List (List Word)) (x : Reading α) : Prop :=
  ∀ r s : Reader, r.Followed ls s → x.Ensures r
    (fun e r' => r'.ahead <:+ r.ahead ∧ ∃ e' s', x.on s = (.error e', s') ∧
      s'.ahead = if e.fault = .endOfDocument then ls.tail else r'.ahead ++ ls)
    (fun a r' => r'.ahead <:+ r.ahead ∧ ∃ s', x.on s = (.ok a, s') ∧ r'.Followed ls s')

theorem Confined.extends (hx : ∀ ls, Confined ls x) : Extends x :=
  fun r s ls hs _ _ h => ((hx ls r s hs).of_ok h).2

theorem confined_pure (a : α) : Confined ls (pure a : Reading α) :=
  fun _ s hs => Attempt.ensures_pure ⟨List.suffix_rfl, s, rfl, hs⟩

theorem Confined.bind {f : α → Reading β} (hx : Confined ls x) (hf : ∀ a, Confined ls (f a)) :
    Confined ls (x >>= f) := by
  intro r s hs
  have hx := hx r s hs
  unfold Attempt.Ensures at hx
  split at hx
  · next a t h =>
    obtain ⟨hsuffix, t', hs', ht⟩ := hx
    refine Attempt.ensures_bind_of_ok h ((hf a t t' ht).mono ?_ ?_)
    · rintro e r' ⟨hr', e', s', hfail, hahead⟩
      exact ⟨hr'.trans hsuffix, e', s', (Attempt.on_bind_of_ok hs').trans hfail, hahead⟩
    · rintro b r' ⟨hr', s', hread, hs''⟩
      exact ⟨hr'.trans hsuffix, s', (Attempt.on_bind_of_ok hs').trans hread, hs''⟩
  · next e t h =>
    obtain ⟨hsuffix, e', s', hfail, hahead⟩ := hx
    refine Attempt.ensures_of_error (Attempt.on_bind_of_error h) ?_
    exact ⟨hsuffix, e', s', Attempt.on_bind_of_error hfail, hahead⟩

theorem Confined.bind_pure {f : α → β} (hx : Confined ls x) :
    Confined ls (x >>= fun a => pure (f a)) :=
  hx.bind fun _ => confined_pure _

theorem Reading.Inline.confined (hx : Inline x) : Confined ls x := by
  intro r s hs
  obtain ⟨result, left, hresult, hon⟩ := hx r.words
  have hr := hon r.line r.rest
  have hs' : x.on s = (result.mapError (fun f => ⟨s.line, f⟩), ⟨s.line, left, s.rest⟩) := by
    rw [← hon s.line s.rest, ← hs.words]
  cases result with
  | ok a => exact Attempt.ensures_of_ok hr ⟨List.suffix_rfl, _, hs', rfl, hs.ahead⟩
  | error f =>
      refine Attempt.ensures_of_error hr ⟨List.suffix_rfl, _, _, hs', ?_⟩
      rw [if_neg fun heq => hresult (congrArg Except.error heq)]
      exact hs.ahead

/-- The line that is looked for beyond the lines that are there is the first of the next record, at
which the reading balks. -/
theorem Reading.OneLine.confined (hx : OneLine x)
    (hls : ∀ ws ∈ ls.head?, ws.head? = some Document.uiWord.toList) : Confined ls x := by
  obtain ⟨y, rfl, hy, fault, hbalks⟩ := hx
  rintro ⟨line, words, rest⟩ s hs
  cases rest with
  | cons l rest =>
      obtain ⟨i, ws⟩ := l
      have hon := nextLine_on_cons line words i ws rest
      obtain ⟨s₁, hs₁, hfollowed⟩ := extends_nextLine _ s ls hs _ _ hon
      have hsuffix : (⟨i, ws, rest⟩ : Reader).ahead <:+
          (⟨line, words, (i, ws) :: rest⟩ : Reader).ahead := List.suffix_cons _ _
      refine Attempt.ensures_bind_of_ok hon ((hy.confined _ s₁ hfollowed).mono ?_ ?_)
      · rintro e r' ⟨hr', e', s', hfail, hahead⟩
        exact ⟨hr'.trans hsuffix, e', s', (Attempt.on_bind_of_ok hs₁).trans hfail, hahead⟩
      · rintro a r' ⟨hr', s', hread, hs'⟩
        exact ⟨hr'.trans hsuffix, s', (Attempt.on_bind_of_ok hs₁).trans hread, hs'⟩
  | nil =>
      have hahead : s.ahead = ls := hs.ahead
      refine Attempt.ensures_of_error (Attempt.on_bind_of_error (nextLine_on_nil line words))
        ⟨List.suffix_rfl, ?_⟩
      rw [if_pos rfl]
      obtain ⟨sline, swords, srest⟩ := s
      cases srest with
      | nil =>
          exact ⟨_, _, Attempt.on_bind_of_error (nextLine_on_nil sline swords), by rw [← hahead]; rfl⟩
      | cons l srest =>
          obtain ⟨i, ws⟩ := l
          subst hahead
          obtain ⟨vs, rfl⟩ : ∃ vs, ws = Document.uiWord.toList :: vs := by
            have hhead := hls ws rfl
            cases ws with
            | nil => cases hhead
            | cons w vs => exact ⟨vs, by rw [Option.some.inj hhead]⟩
          exact ⟨_, _, (Attempt.on_bind_of_ok (nextLine_on_cons sline swords _ _ srest)).trans
            (hbalks i vs srest), rfl⟩

end Confined

/-! ## Records -/

namespace UiNode

variable {ls : List (List Word)}

theorem confined_readBindings (hls : ∀ ws ∈ ls.head?, ws.head? = some Document.uiWord.toList)
    (n : Nat) : Confined ls (readBindings n) := by
  induction n with
  | zero => exact confined_pure _
  | succ n ih => exact (oneLine_readBinding.confined hls).bind fun _ => ih.bind_pure

/-- The reading of a record has no part in the records after it, unless it runs out of lines. -/
theorem confined_read (hls : ∀ ws ∈ ls.head?, ws.head? = some Document.uiWord.toList)
    (kind : UiNodeKind) : Confined ls (read kind) := by
  by_cases hdraw : kind = .draw
  · subst hdraw
    have hident : Confined ls ident := (inline_form _ _).confined
    iterate 4 refine hident.bind fun _ => ?_
    refine (inline_form _ _).confined.bind fun count => ?_
    refine (inline_numbers 3).confined.bind fun _ => ?_
    exact (confined_readBindings hls count).bind_pure
  · exact (inline_read hdraw).confined

end UiNode

end DrawGraph
