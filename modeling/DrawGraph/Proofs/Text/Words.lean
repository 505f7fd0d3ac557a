import DrawGraph.Proofs.Text.Integer
import DrawGraph.Text.Escape

/-!
# Words that are read back

Words of characters that are not blank, set apart by spaces, are the words of the line that they
make up, and lines that end in newlines are the lines of their text. An escaped text has no blanks
and is read back as it was.
-/

namespace DrawGraph

namespace Text

/-- Something that can stand in a line as one word. -/
def IsWord (w : List Char) : Prop := w ≠ [] ∧ ∀ c ∈ w, isBlank c = false

theorem isWord_of_all {w : List Char} (hne : w ≠ []) (h : (w.all fun c => !isBlank c) = true) :
    IsWord w := by
  refine ⟨hne, fun c hc => ?_⟩
  simpa using List.all_eq_true.1 h c hc

theorem wordsFrom_append {w : List Char} (hw : ∀ c ∈ w, isBlank c = false) (v cs : List Char) :
    wordsFrom v (w ++ cs) = wordsFrom (v ++ w) cs := by
  induction w generalizing v with
  | nil => rw [List.nil_append, List.append_nil]
  | cons c w ih =>
      obtain ⟨hc, hw⟩ := List.forall_mem_cons.1 hw
      rw [List.cons_append, wordsFrom, hc]
      simp only [Bool.false_eq_true, if_false]
      rw [ih hw, List.append_assoc, List.singleton_append]

/-- Empty words leave no trace. -/
theorem words_intercalate_filter {ws : List (List Char)}
    (h : ∀ w ∈ ws, ∀ c ∈ w, isBlank c = false) :
    words ([' '].intercalate ws) = ws.filter fun w => !w.isEmpty := by
  induction ws with
  | nil => rfl
  | cons w ws ih =>
      obtain ⟨hw, hws⟩ := List.forall_mem_cons.1 h
      rw [List.filter_cons]
      cases ws with
      | nil =>
          rw [List.intercalate_singleton, words, ← List.append_nil w, wordsFrom_append hw,
            List.nil_append, wordsFrom, List.append_nil]
          cases w.isEmpty <;> rfl
      | cons v vs =>
          have hspace : isBlank ' ' = true := by decide
          rw [List.intercalate_cons_cons, words, List.append_assoc, wordsFrom_append hw,
            List.nil_append, List.singleton_append, wordsFrom, hspace, ← ih hws]
          cases w.isEmpty <;> rfl

theorem lines_append_newline {l : List Char} (h : '\n' ∉ l) (cs : List Char) :
    lines (l ++ '\n' :: cs) = l :: lines cs := by
  induction l with
  | nil => rfl
  | cons c l ih =>
      rw [List.mem_cons, not_or] at h
      rw [List.cons_append, lines, ih h.2]
      exact fun hc => h.1 hc.symm

/-! ## Escaped words -/

theorem digit?_hexDigit {n : Nat} (h : n < 16) : digit? 16 (hexDigit n) = some n := by
  revert n
  decide

theorem hexDigit_ne_plus {n : Nat} (h : n < 16) : hexDigit n ≠ '+' := by
  revert n
  decide

theorem isBlank_hexDigit {n : Nat} (h : n < 16) : isBlank (hexDigit n) = false := by
  revert n
  decide

theorem unsigned?_hexDigits (b : UInt8) :
    unsigned? 16 255 [hexDigit (b.toNat / 16), hexDigit (b.toNat % 16)] = some b.toNat := by
  have hb := b.toNat_lt
  have hhigh : b.toNat / 16 < 16 := by omega
  have hlow : b.toNat % 16 < 16 := by omega
  have hdigits : b.toNat / 16 * 16 + b.toNat % 16 = b.toNat := Nat.div_add_mod' ..
  have hnatural : natural? 16 [hexDigit (b.toNat / 16), hexDigit (b.toNat % 16)] =
      some b.toNat := by
    simp only [natural?, List.isEmpty_cons, Bool.false_eq_true, if_false, digitsFrom?,
      digit?_hexDigit hhigh, digit?_hexDigit hlow, Option.bind_eq_bind, Option.bind_some,
      Nat.zero_mul, Nat.zero_add, hdigits]
  unfold unsigned?
  split
  · next heq =>
    obtain ⟨hplus, _⟩ := List.cons.inj heq
    exact absurd hplus (hexDigit_ne_plus hhigh)
  · rw [hnatural, Option.bind_eq_bind, Option.bind_some, if_pos (by omega)]

theorem unescapeBytes?_escapeByte (b : UInt8) (cs : List Char) :
    unescapeBytes? (escapeByte b ++ cs) = (unescapeBytes? cs).map (b :: ·) := by
  have htext : escapeByte b ++ cs =
      '%' :: hexDigit (b.toNat / 16) :: hexDigit (b.toNat % 16) :: cs := rfl
  rw [htext, unescapeBytes?, unsigned?_hexDigits, Option.bind_eq_bind, Option.bind_some,
    UInt8.ofNat_toNat]
  cases unescapeBytes? cs <;> rfl

theorem unescapeBytes?_escapeBytes (bs : List UInt8) (cs : List Char) :
    unescapeBytes? (bs.flatMap escapeByte ++ cs) = (unescapeBytes? cs).map (bs ++ ·) := by
  induction bs with
  | nil =>
      rw [List.flatMap_nil, List.nil_append]
      cases unescapeBytes? cs <;> rfl
  | cons b bs ih =>
      rw [List.flatMap_cons, List.append_assoc, unescapeBytes?_escapeByte, ih, Option.map_map]
      rfl

theorem unescapeBytes?_escapeChar (c : Char) (cs : List Char) :
    unescapeBytes? (escapeChar c ++ cs) =
      (unescapeBytes? cs).map (String.utf8EncodeChar c ++ ·) := by
  unfold escapeChar
  split
  · exact unescapeBytes?_escapeBytes _ cs
  · next h =>
    have hc : c ≠ '%' := fun hc => h (Or.inl hc)
    rw [List.singleton_append, unescapeBytes?.eq_3 _ _ fun _ _ _ heq => absurd heq hc, if_neg hc]
    cases unescapeBytes? cs <;> rfl

theorem unescapeBytes?_escape (cs : List Char) :
    unescapeBytes? (escape cs) = some (cs.flatMap String.utf8EncodeChar) := by
  induction cs with
  | nil => rfl
  | cons c cs ih =>
      have hcons : escape (c :: cs) = escapeChar c ++ escape cs := rfl
      rw [hcons, unescapeBytes?_escapeChar, ih, Option.map_some, List.flatMap_cons]

theorem unescape?_of_bytes {w cs : List Char}
    (h : unescapeBytes? w = some (cs.flatMap String.utf8EncodeChar)) : unescape? w = some cs := by
  have hbytes : (⟨(cs.flatMap String.utf8EncodeChar).toArray⟩ : ByteArray) = cs.utf8Encode := by
    rw [List.utf8Encode, ByteArray.ext_iff, List.data_toByteArray]
  have htext : String.fromUTF8? cs.utf8Encode = some (String.ofList cs) := by
    rw [String.fromUTF8?, dif_pos ByteArray.isValidUTF8_utf8Encode, Option.some.injEq,
      ← String.toByteArray_inj, String.toByteArray_ofList]
    rfl
  rw [unescape?, h, Option.bind_eq_bind, Option.bind_some, hbytes, htext]
  exact congrArg some String.toList_ofList

theorem unescape?_escape (cs : List Char) : unescape? (escape cs) = some cs :=
  unescape?_of_bytes (unescapeBytes?_escape cs)

theorem unescape?_escapeByte_dash : unescape? (escapeByte 0x2D) = some ['-'] := by
  apply unescape?_of_bytes
  decide

theorem isBlank_of_mem_escapeByte {b : UInt8} {c : Char} (h : c ∈ escapeByte b) :
    isBlank c = false := by
  have hb := b.toNat_lt
  simp only [escapeByte, List.mem_cons, List.not_mem_nil, or_false] at h
  rcases h with rfl | rfl | rfl
  · decide
  · exact isBlank_hexDigit (by omega)
  · exact isBlank_hexDigit (by omega)

theorem isBlank_of_mem_escape {cs : List Char} {c : Char} (h : c ∈ escape cs) :
    isBlank c = false := by
  obtain ⟨a, _, hc⟩ := List.mem_flatMap.1 h
  unfold escapeChar at hc
  split at hc
  · obtain ⟨b, _, hc⟩ := List.mem_flatMap.1 hc
    exact isBlank_of_mem_escapeByte hc
  · next hplain =>
    obtain rfl := List.mem_singleton.1 hc
    simpa using fun hblank => hplain (Or.inr hblank)

theorem escape_ne_nil {cs : List Char} (h : cs ≠ []) : escape cs ≠ [] := by
  intro hnil
  have hread := unescape?_escape cs
  rw [hnil] at hread
  exact h (Option.some.inj hread).symm

theorem isWord_escape {cs : List Char} (h : cs ≠ []) : IsWord (escape cs) :=
  ⟨escape_ne_nil h, fun _ => isBlank_of_mem_escape⟩

theorem isWord_escapeByte (b : UInt8) : IsWord (escapeByte b) :=
  ⟨List.cons_ne_nil _ _, fun _ => isBlank_of_mem_escapeByte⟩

/-- Only a lone dash is written as one. -/
theorem eq_of_escape_eq_dash {cs : List Char} (h : escape cs = ['-']) : cs = ['-'] := by
  have hread := unescape?_escape cs
  rw [h] at hread
  have hdash : unescape? ['-'] = some ['-'] := unescape?_escape ['-']
  exact Option.some.inj (hread.symm.trans hdash)

end Text

end DrawGraph
