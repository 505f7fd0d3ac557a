/-!
# Blank characters, words and lines

A character is blank when Unicode gives it the property `White_Space`. The words of a text are
its longest runs of other characters.
-/

namespace DrawGraph

namespace Text

/-- The code points with the property `White_Space`, as ranges with both ends included. -/
def blankRanges : List (Nat × Nat) :=
  [(0x9, 0xD), (0x20, 0x20), (0x85, 0x85), (0xA0, 0xA0), (0x1680, 0x1680), (0x2000, 0x200A),
    (0x2028, 0x2029), (0x202F, 0x202F), (0x205F, 0x205F), (0x3000, 0x3000)]

def isBlank (c : Char) : Bool :=
  blankRanges.any fun (first, last) => first ≤ c.toNat && c.toNat ≤ last

/-- The words of a text, `word` being the one that its start continues. -/
def wordsFrom (word : List Char) : List Char → List (List Char)
  | [] => if word.isEmpty then [] else [word]
  | c :: cs =>
    if isBlank c then
      if word.isEmpty then wordsFrom [] cs else word :: wordsFrom [] cs
    else wordsFrom (word ++ [c]) cs

def words (cs : List Char) : List (List Char) := wordsFrom [] cs

theorem mem_wordsFrom {w cs v : List Char} (hw : ∀ c ∈ w, isBlank c = false)
    (hv : v ∈ wordsFrom w cs) : v ≠ [] ∧ ∀ c ∈ v, isBlank c = false := by
  induction cs generalizing w with
  | nil =>
    cases w with
    | nil => simp [wordsFrom] at hv
    | cons a w =>
      simp only [wordsFrom, List.isEmpty_cons, Bool.false_eq_true, if_false,
        List.mem_singleton] at hv
      subst hv
      exact ⟨by simp, hw⟩
  | cons c cs ih =>
    unfold wordsFrom at hv
    split at hv
    · split at hv
      · exact ih (by simp) hv
      · next hne =>
        rcases List.mem_cons.1 hv with rfl | hv
        · exact ⟨by simpa using hne, hw⟩
        · exact ih (by simp) hv
    · next hc =>
      refine ih (fun a ha => ?_) hv
      rcases List.mem_append.1 ha with ha | ha
      · exact hw a ha
      · simp_all

/-- No word is empty and none holds a blank. -/
theorem mem_words {cs v : List Char} (hv : v ∈ words cs) : v ≠ [] ∧ ∀ c ∈ v, isBlank c = false :=
  mem_wordsFrom (by simp) hv

def lines : List Char → List (List Char)
  | [] => [[]]
  | '\n' :: cs => [] :: lines cs
  | c :: cs =>
    match lines cs with
    | [] => [[c]]
    | l :: ls => (c :: l) :: ls

end Text

end DrawGraph
