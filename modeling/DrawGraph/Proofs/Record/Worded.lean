import DrawGraph.Proofs.Record.Reader

/-!
# What can be read of a text

No word of a text is empty. So whatever the text, no string that is read from it is empty, nor is a
path; and a value that is read is one of the kind that was asked for.
-/

namespace DrawGraph

namespace Text

theorem unescapeBytes?_ne_nil {w : List Char} (hw : w ≠ []) {bs : List UInt8}
    (h : unescapeBytes? w = some bs) : bs ≠ [] := by
  unfold unescapeBytes? at h
  split at h
  · exact absurd rfl hw
  · simp only [Option.bind_eq_bind, Option.bind_eq_some_iff, Option.some.injEq] at h
    obtain ⟨_, _, _, _, rfl⟩ := h
    exact List.cons_ne_nil _ _
  · split at h
    · cases h
    · simp only [Option.bind_eq_bind, Option.bind_eq_some_iff, Option.some.injEq] at h
      obtain ⟨_, _, rfl⟩ := h
      exact List.append_ne_nil_of_left_ne_nil String.utf8EncodeChar_ne_nil _

/-- Only an empty word is read as an empty string. -/
theorem unescape?_ne_nil {w cs : List Char} (hw : w ≠ []) (h : unescape? w = some cs) :
    cs ≠ [] := by
  simp only [unescape?, Option.bind_eq_bind, Option.bind_eq_some_iff, Option.some.injEq] at h
  obtain ⟨bs, hbs, text, htext, rfl⟩ := h
  have hbytes : text.toByteArray = ⟨bs.toArray⟩ := by
    unfold String.fromUTF8? at htext
    split at htext
    · exact Option.some.inj htext ▸ rfl
    · cases htext
  intro hnil
  obtain rfl := String.toList_eq_nil_iff.1 hnil
  apply unescapeBytes?_ne_nil hw hbs
  exact (congrArg (fun b : ByteArray => b.data.toList) hbytes).symm

end Text

namespace Reader

/-- No word that a reader has come to or has yet to come to is empty. -/
structure Worded (r : Reader) : Prop where
  words : ∀ w ∈ r.words, w ≠ []
  rest : ∀ l ∈ r.rest, ∀ w ∈ l.2, w ≠ []

theorem worded_ofText (text : String) : (ofText text).Worded where
  words _ hw := nomatch hw
  rest l hl w hw := by
    obtain ⟨⟨line, i⟩, _, heq⟩ := List.mem_filterMap.1 hl
    dsimp only at heq
    split at heq
    · cases heq
    · cases heq
      exact (Text.mem_words hw).1

theorem worded_skipFrom (keyword : Word) {rest : List (Nat × List Word)} (line : Nat)
    {words : List Word} (hwords : ∀ w ∈ words, w ≠ []) (hrest : ∀ l ∈ rest, ∀ w ∈ l.2, w ≠ []) :
    (skipFrom keyword line words rest).Worded := by
  induction rest generalizing line words with
  | nil => exact ⟨hwords, hrest⟩
  | cons l rest ih =>
      rw [skipFrom]
      split
      · exact ⟨hwords, hrest⟩
      · exact ih l.1 (fun _ hw => nomatch hw) (List.forall_mem_cons.1 hrest).2

theorem Worded.skipUntil {r : Reader} (h : r.Worded) (keyword : Word) :
    (r.skipUntil keyword).Worded :=
  worded_skipFrom keyword r.line h.words h.rest

end Reader

section Obtains

variable {ε ε' α β : Type} {x : Attempt ε Reader α} {p : α → Prop} {q : β → Prop}

/-- Reading on where no word is empty leads to where none is, and any value has a property. -/
def Obtains (x : Attempt ε Reader α) (p : α → Prop) : Prop :=
  ∀ r : Reader, r.Worded →
    x.Ensures r (fun _ r' => r'.Worded) fun a r' => r'.Worded ∧ p a

theorem obtains_pure {a : α} (h : p a) : Obtains (pure a : Attempt ε Reader α) p :=
  fun _ hr => Attempt.ensures_pure ⟨hr, h⟩

theorem obtains_throw (e : ε) : Obtains (throw e : Attempt ε Reader α) p :=
  fun r hr => Attempt.ensures_of_error (Attempt.on_throw e r) hr

theorem Obtains.bind {f : α → Attempt ε Reader β} (hx : Obtains x p)
    (hf : ∀ a, p a → Obtains (f a) q) : Obtains (x >>= f) q :=
  fun r hr => (hx r hr).bind fun a t ha => hf a ha.2 t ha.1

/-- Where nothing is said of the values, there is nothing to show of what is made of them. -/
theorem Obtains.bind_pure {f : α → β} (hx : Obtains x p) (h : ∀ a, p a → q (f a)) :
    Obtains (x >>= fun a => pure (f a)) q :=
  hx.bind fun a ha => obtains_pure (h a ha)

theorem obtains_get_bind {f : Reader → Attempt ε Reader β}
    (hf : ∀ r : Reader, r.Worded → (f r).Ensures r (fun _ r' => r'.Worded)
      fun b r' => r'.Worded ∧ q b) :
    Obtains ((get : Attempt ε Reader Reader) >>= f) q :=
  fun r hr => Attempt.ensures_get_bind (hf r hr)

theorem Obtains.caught {f : ε → Attempt ε Reader α} (hx : Obtains x p) (hf : ∀ e, Obtains (f e) p) :
    Obtains (tryCatch x f) p :=
  fun r hr => (hx r hr).caught fun e t ht => hf e t ht

theorem Obtains.parsing {x : Reading α} (hx : Obtains x p) (err : ParseError → ε') :
    Obtains (x.zoom (fun r => r) (fun r _ => r) err) p := by
  intro r hr
  have hx := hx r hr
  unfold Attempt.Ensures at hx ⊢
  rw [Attempt.on_zoom]
  cases hres : x.on r with
  | mk result r' =>
    rw [hres] at hx
    cases result with
    | ok a => exact hx
    | error e => exact hx

end Obtains

namespace Reading

variable {α : Type} {p : α → Prop}

theorem obtains_fail (f : Fault) : Obtains (fail f : Reading α) p :=
  obtains_get_bind fun _ hr => obtains_throw _ _ hr

theorem obtains_nextLine : Obtains nextLine fun _ => True := by
  apply obtains_get_bind
  intro r hr
  split
  · exact obtains_fail _ r hr
  · next i ws rest hrest =>
    have hall := hr.rest
    rw [hrest] at hall
    obtain ⟨hws, hrest⟩ := List.forall_mem_cons.1 hall
    exact Attempt.ensures_of_ok (Attempt.on_set r _) ⟨⟨hws, hrest⟩, trivial⟩

theorem obtains_word : Obtains word (· ≠ []) := by
  apply obtains_get_bind
  intro r hr
  split
  · exact obtains_fail _ r hr
  · next w ws hwords =>
    have hall := hr.words
    rw [hwords] at hall
    obtain ⟨hw, hws⟩ := List.forall_mem_cons.1 hall
    exact Attempt.ensures_set_bind (Attempt.ensures_pure ⟨⟨hws, hr.rest⟩, hw⟩)

theorem obtains_keyword (expected : String) : Obtains (keyword expected) fun _ => True := by
  apply obtains_word.bind
  intro w _
  split
  · exact obtains_pure trivial
  · exact obtains_fail _

theorem obtains_form (expected : String) (read : Word → Option α) :
    Obtains (form expected read) fun _ => True := by
  apply obtains_word.bind
  intro w _
  split
  · exact obtains_pure trivial
  · exact obtains_fail _

theorem obtains_optionalId : Obtains optionalId fun _ => True := by
  apply obtains_word.bind
  intro w _
  split
  · exact obtains_pure trivial
  split
  · exact obtains_fail _
  split
  · exact obtains_pure trivial
  split
  · exact obtains_pure trivial
  · exact obtains_fail _

theorem obtains_tagged (table : String) (ofTag? : Nat → Option α) :
    Obtains (tagged table ofTag?) fun _ => True := by
  apply (obtains_form _ _).bind
  intro n _
  split
  · exact obtains_pure trivial
  · exact obtains_fail _

theorem obtains_numbers (n : Nat) : Obtains (numbers n) fun _ => True := by
  induction n with
  | zero => exact obtains_pure trivial
  | succ n ih => exact ih.bind fun _ _ => (obtains_form _ _).bind_pure fun _ _ => trivial

theorem obtains_value (k : ValueKind) : Obtains (value k) (·.kind = k) := by
  cases k with
  | float | int => exact (obtains_form _ _).bind_pure fun _ _ => rfl
  | float2 | float3 | float4 | float4x4 => exact (obtains_numbers _).bind_pure fun _ _ => rfl

theorem obtains_unescaped {w : Word} (hw : w ≠ []) : Obtains (unescaped w) (· ≠ "") := by
  unfold unescaped
  split
  · next cs hcs =>
    apply obtains_pure
    intro hempty
    apply Text.unescape?_ne_nil hw hcs
    rw [← String.toList_ofList (l := cs), hempty]
    rfl
  · exact obtains_fail _

theorem obtains_string : Obtains string (· ≠ "") :=
  obtains_word.bind fun _ hw => obtains_unescaped hw

theorem obtains_text : Obtains text fun s => s.filter (· ≠ "") = s := by
  apply obtains_word.bind
  intro w hw
  split
  · exact obtains_pure rfl
  · exact (obtains_unescaped hw).bind_pure fun s hs => by simp [hs]

end Reading

end DrawGraph
