import DrawGraph.Proofs.Binary32.Text
import DrawGraph.Proofs.Text.Words
import DrawGraph.Record.Field

/-!
# Written fields

Every field is written as words without blanks, so a written line falls into the very words of its
fields. Only a string that is empty would leave no trace.
-/

namespace DrawGraph

open Text

namespace Binary32

theorem isBlank_text_decimal {d : Decimal} {c : Char} (h : c ∈ d.text.toList) :
    isBlank c = false := by
  have hzeros {n : Nat} (hc : c ∈ List.replicate n '0') : isBlank c = false :=
    isBlank_eq_false_of_isDigit (isDigit_of_mem_zeros hc)
  have hdigits (hc : c ∈ (toString d.digits).toList) : isBlank c = false :=
    isBlank_eq_false_of_isDigit (isDigit_of_mem_numeral hc)
  by_cases hplace : 0 ≤ d.place
  · rw [toList_text_of_nonneg hplace] at h
    exact (List.mem_append.1 h).elim hdigits hzeros
  · obtain ⟨n, whole, parts, htext, _, _, hpadded⟩ := toList_text_of_neg (not_le.1 hplace)
    have hpart (hc : c ∈ whole ++ parts) : isBlank c = false := by
      rw [hpadded] at hc
      exact (List.mem_append.1 hc).elim hzeros hdigits
    rw [htext, List.mem_append, List.mem_cons] at h
    rcases h with h | rfl | h
    · exact hpart (List.mem_append_left _ h)
    · decide
    · exact hpart (List.mem_append_right _ h)

theorem isWord_text_decimal (d : Decimal) : IsWord d.text.toList := by
  obtain ⟨c, cs, hcs, _⟩ := head_text d
  exact ⟨hcs ▸ List.cons_ne_nil c cs, fun _ => isBlank_text_decimal⟩

theorem isWord_text (x : Float32) : IsWord (text x).toList := by
  cases hnan : x.isNaN with
  | true =>
      rw [text, if_pos hnan]
      exact isWord_of_all (by decide) (by decide)
  | false =>
      have hsigned {s : String} (h : IsWord s.toList) :
          IsWord (if isNegative x then "-" ++ s else s).toList := by
        split
        · rw [String.toList_append]
          refine ⟨List.append_ne_nil_of_right_ne_nil _ h.1, ?_⟩
          intro c hc
          rcases List.mem_append.1 hc with hc | hc
          · obtain rfl : c = '-' := by simpa using hc
            decide
          · exact h.2 c hc
        · exact h
      rw [text_eq hnan rfl]
      apply hsigned
      split
      · exact isWord_of_all (by decide) (by decide)
      · split
        · exact isWord_of_all (by decide) (by decide)
        · exact isWord_text_decimal _

end Binary32

namespace Field

theorem isWord_unsignedWord (n : UInt32) : IsWord (unsignedWord n) :=
  ⟨numeral_ne_nil _, fun _ hc => isBlank_eq_false_of_isDigit (isDigit_of_mem_numeral hc)⟩

theorem isWord_integerWord (n : Int32) : IsWord (integerWord n) := by
  unfold integerWord
  cases n.toInt with
  | ofNat m =>
      exact ⟨numeral_ne_nil m,
        fun _ hc => isBlank_eq_false_of_isDigit (isDigit_of_mem_numeral hc)⟩
  | negSucc m =>
      rw [toList_negSucc]
      refine ⟨List.cons_ne_nil _ _, ?_⟩
      intro c hc
      rcases List.mem_cons.1 hc with rfl | hc
      · decide
      · exact isBlank_eq_false_of_isDigit (isDigit_of_mem_numeral hc)

theorem isWord_dash : IsWord dash := isWord_of_all (List.cons_ne_nil _ _) (by decide)

theorem isWord_string {s : String} (h : s ≠ "") : IsWord (escape s.toList) :=
  isWord_escape fun hnil => h (String.toList_eq_nil_iff.1 hnil)

theorem isWord_textWord (s : Option String) : IsWord (textWord s) := by
  unfold textWord
  split
  · exact isWord_dash
  · split
    · exact isWord_dash
    · split
      · exact isWord_escapeByte _
      · next h _ => exact isWord_string h

/-- A field that leaves at least one word, and only words. -/
theorem isWord_words {f : Field} (hf : ∀ s, f = .word s → s ≠ "") {w : Word} (hw : w ∈ f.words) :
    IsWord w := by
  cases f with
  | id n =>
      obtain rfl := List.mem_singleton.1 hw
      exact isWord_unsignedWord n
  | optionalId n =>
      cases n with
      | none =>
          obtain rfl := List.mem_singleton.1 hw
          exact isWord_integerWord _
      | some n =>
          obtain rfl := List.mem_singleton.1 hw
          exact isWord_unsignedWord n
  | unsigned n =>
      obtain rfl := List.mem_singleton.1 hw
      exact isWord_unsignedWord n
  | integer n =>
      obtain rfl := List.mem_singleton.1 hw
      exact isWord_integerWord n
  | number x =>
      obtain rfl := List.mem_singleton.1 hw
      exact Binary32.isWord_text x
  | value v =>
      have hcomponents {xs : List Float32} (hw : w ∈ xs.map numberWord) : IsWord w := by
        obtain ⟨x, _, rfl⟩ := List.mem_map.1 hw
        exact Binary32.isWord_text x
      cases v with
      | int n =>
          obtain rfl := List.mem_singleton.1 hw
          exact isWord_integerWord n
      | float x => exact hcomponents hw
      | float2 v => exact hcomponents hw
      | float3 v => exact hcomponents hw
      | float4 v => exact hcomponents hw
      | float4x4 m => exact hcomponents hw
  | word s =>
      obtain rfl := List.mem_singleton.1 hw
      exact isWord_string (hf s rfl)
  | text s =>
      obtain rfl := List.mem_singleton.1 hw
      exact isWord_textWord s

/-- No field leaves a blank within a word. -/
theorem isBlank_of_mem_words {f : Field} {w : Word} (hw : w ∈ f.words) {c : Char} (hc : c ∈ w) :
    isBlank c = false := by
  cases f with
  | word s =>
      obtain rfl := List.mem_singleton.1 hw
      exact isBlank_of_mem_escape hc
  | id | optionalId | unsigned | integer | number | value | text =>
      exact (isWord_words (fun _ h => by cases h) hw).2 c hc

end Field

end DrawGraph
