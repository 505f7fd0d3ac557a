import DrawGraph.Proofs.Record.Worded

/-!
# Lines that are read back

Fields written line by line are read back by asking for each field's kind in turn. Words are
separated by blanks only, and so a string that is empty leaves no word. That is the one field that
is not read back, and an empty optional text comes back as none; every other string, blanks and
escapes and dashes included, is found again.
-/

namespace DrawGraph

/-- What a field is read as. -/
inductive FieldKind
  | id | optionalId | unsigned | integer | number | value (kind : ValueKind) | word | text

namespace Field

def kind : Field → FieldKind
  | id _ => .id
  | optionalId _ => .optionalId
  | unsigned _ => .unsigned
  | integer _ => .integer
  | number _ => .number
  | value v => .value v.kind
  | word _ => .word
  | text _ => .text

/-- The field that is found again: an empty text counts as absent. -/
def readBack : Field → Field
  | text s => text (s.filter (· ≠ ""))
  | f => f

end Field

def FieldKind.read : FieldKind → Reading Field
  | .id => do return .id (← Reading.ident)
  | .optionalId => do return .optionalId (← Reading.optionalId)
  | .unsigned => do return .unsigned (← Reading.unsigned)
  | .integer => do return .integer (← Reading.integer)
  | .number => do return .number (← Reading.number)
  | .value kind => do return .value (← Reading.value kind)
  | .word => do return .word (← Reading.string)
  | .text => do return .text (← Reading.text)

namespace Reading

def fields : List FieldKind → Reading Line
  | [] => return []
  | k :: ks => do
    let f ← k.read
    return f :: (← fields ks)

/-- The fields of the next line, with the words that are left over. -/
def line (ks : List FieldKind) : Reading (Line × List Word) := do
  nextLine
  let l ← fields ks
  return (l, (← get).words)

def lines : List (List FieldKind) → Reading (List (Line × List Word))
  | [] => return []
  | ks :: kss => do
    let l ← line ks
    return l :: (← lines kss)

end Reading

/-! ## Writing -/

namespace Draft

def addLine (d : Draft) (l : Line) : Draft := l.foldl add d

/-- Add lines, and end each. -/
def addLines (d : Draft) : List Line → Draft
  | [] => d
  | l :: ls => (d.addLine l).newLine.addLines ls

def ofLines (ls : List Line) : Draft := addLines {} ls

/-- The text of these lines, whether the last of them is ended by itself or by the text. -/
def Finishes (ls : List Line) (text : String) : Prop :=
  text = (ofLines ls).finish ∨
    ∃ before last, ls = before ++ [last] ∧ text = ((ofLines before).addLine last).finish

theorem addLine_eq (d : Draft) (l : Line) : d.addLine l = { d with line := d.line ++ l.words } := by
  induction l generalizing d with
  | nil => exact congrArg (Draft.mk d.done) (List.append_nil d.line).symm
  | cons f l ih =>
      rw [addLine, List.foldl_cons, ← addLine, ih, add, List.append_assoc]
      rfl

theorem newLine_addLine (d : Draft) (l : Line) (h : d.line = []) :
    (d.addLine l).newLine = { done := l.render :: d.done } := by
  rw [addLine_eq, newLine, h, List.nil_append]
  rfl

theorem addLines_append (d : Draft) (ls ls' : List Line) :
    d.addLines (ls ++ ls') = (d.addLines ls).addLines ls' := by
  induction ls generalizing d with
  | nil => rfl
  | cons l ls ih => exact ih _

theorem addLines_eq (done : List (List Char)) (ls : List Line) :
    addLines { done } ls = { done := (ls.map Line.render).reverse ++ done } := by
  induction ls generalizing done with
  | nil => rfl
  | cons l ls ih =>
      rw [addLines, newLine_addLine _ _ rfl, ih, List.map_cons, List.reverse_cons,
        List.append_assoc]
      rfl

theorem ofLines_eq (ls : List Line) : ofLines ls = { done := (ls.map Line.render).reverse } :=
  (addLines_eq [] ls).trans (by rw [List.append_nil])

theorem finish_ofLines (ls : List Line) : (ofLines ls).finish = Line.renderAll ls := by
  rw [ofLines_eq]
  change String.ofList (ls.map Line.render).reverse.reverse.flatten = _
  rw [List.reverse_reverse, Line.renderAll, List.flatMap_def]

theorem finish_addLine {ls : List Line} {l : Line} (h : l.words ≠ []) :
    ((ofLines ls).addLine l).finish = Line.renderAll (ls ++ [l]) := by
  have hline : (ofLines ls).line = [] := by rw [ofLines_eq]
  have hopen : ((ofLines ls).addLine l).line ≠ [] := by
    rw [addLine_eq, hline]
    exact h
  have hended : ((ofLines ls).addLine l).newLine = ofLines (ls ++ [l]) := by
    rw [ofLines, ofLines, addLines_append]
    rfl
  rw [← finish_ofLines, ← hended, finish, if_neg (by simpa using hopen)]
  rfl

end Draft

/-! ## Reading -/

theorem Field.words_ne_nil (f : Field) : f.words ≠ [] := by
  cases f with
  | optionalId n => cases n <;> exact List.cons_ne_nil _ _
  | value v =>
      cases v with
      | int n => exact List.cons_ne_nil _ _
      | float x => exact List.cons_ne_nil _ _
      | float2 v | float3 v | float4 v | float4x4 v =>
          intro h
          have hlength := congrArg List.length h
          simp [words, Value.components] at hlength
  | _ => exact List.cons_ne_nil _ _

theorem Line.words_ne_nil {l : Line} (h : l ≠ []) : l.words ≠ [] := by
  obtain ⟨f, l, rfl⟩ := List.exists_cons_of_ne_nil h
  exact List.append_ne_nil_of_left_ne_nil f.words_ne_nil _

theorem Draft.Finishes.text_eq {ls : List Line} {text : String} (hls : ∀ l ∈ ls, l ≠ [])
    (h : Finishes ls text) : text = Line.renderAll ls := by
  rcases h with rfl | ⟨before, last, rfl, rfl⟩
  · exact finish_ofLines ls
  · exact finish_addLine (Line.words_ne_nil (hls last (by simp)))

namespace Reading

variable {ws : List Word} {ls : List (List Word)}

theorem reads_field (f : Field) : Reads f.kind.read (f.words ++ ws, ls) f.readBack (ws, ls) := by
  cases f with
  | id n => exact (reads_ident n).bind_pure
  | optionalId n => exact (reads_optionalId n).bind_pure
  | unsigned n => exact (reads_unsigned n).bind_pure
  | integer n => exact (reads_integer n).bind_pure
  | number x => exact (reads_number x).bind_pure
  | value v => exact (reads_value v).bind_pure
  | word s => exact (reads_string s).bind_pure
  | text s => exact (reads_text s).bind_pure

theorem reads_fields (l : Line) :
    Reads (fields (l.map Field.kind)) (l.words ++ ws, ls) (l.map Field.readBack) (ws, ls) := by
  induction l with
  | nil => exact reads_pure _ _
  | cons f l ih =>
      rw [Line.words, List.flatMap_cons, List.append_assoc]
      exact (reads_field f).bind ih.bind_pure

theorem reads_line (l : Line) : Reads (line (l.map Field.kind)) (ws, l.words :: ls)
    (l.map Field.readBack, []) ([], ls) := by
  apply (reads_nextLine ws l.words).bind
  rw [← List.append_nil l.words]
  apply (reads_fields l).bind
  apply reads_get_bind
  intro r hr
  rw [show r.words = [] from congrArg Prod.fst hr]
  exact reads_pure _ _

theorem reads_lines (ls : List Line) : Reads (lines (ls.map (List.map Field.kind)))
    ([], ls.map Line.words) (ls.map fun l => (l.map Field.readBack, [])) ([], []) := by
  induction ls with
  | nil => exact reads_pure _ _
  | cons l ls ih => exact (reads_line l).bind ih.bind_pure

/-! ### What is never read -/

theorem obtains_field (k : FieldKind) : Obtains k.read (· ≠ .word "") := by
  cases k with
  | id => exact (obtains_form _ _).bind_pure fun _ _ => nofun
  | optionalId => exact obtains_optionalId.bind_pure fun _ _ => nofun
  | unsigned => exact (obtains_form _ _).bind_pure fun _ _ => nofun
  | integer => exact (obtains_form _ _).bind_pure fun _ _ => nofun
  | number => exact (obtains_form _ _).bind_pure fun _ _ => nofun
  | value kind => exact (obtains_value kind).bind_pure fun _ _ => nofun
  | word => exact obtains_string.bind_pure fun s hs heq => hs (Field.word.inj heq)
  | text => exact obtains_text.bind_pure fun _ _ => nofun

theorem obtains_fields (ks : List FieldKind) : Obtains (fields ks) (Field.word "" ∉ ·) := by
  induction ks with
  | nil => exact obtains_pure List.not_mem_nil
  | cons k ks ih =>
      apply (obtains_field k).bind
      intro f hf
      exact ih.bind_pure fun l hl hmem => (List.mem_cons.1 hmem).elim hf.symm hl

theorem obtains_line (ks : List FieldKind) : Obtains (line ks) (Field.word "" ∉ ·.1) := by
  apply obtains_nextLine.bind
  intro _ _
  apply (obtains_fields ks).bind
  intro l hl
  exact obtains_get_bind fun r hr => Attempt.ensures_pure ⟨hr, hl⟩

theorem obtains_lines (kss : List (List FieldKind)) :
    Obtains (lines kss) fun ps => ∀ p ∈ ps, Field.word "" ∉ p.1 := by
  induction kss with
  | nil => exact obtains_pure fun _ hp => nomatch hp
  | cons ks kss ih =>
      apply (obtains_line ks).bind
      intro p hp
      exact ih.bind_pure fun ps hps => List.forall_mem_cons.2 ⟨hp, hps⟩

variable {lines : List Line} {text : String}

/-- Lines of fields are read back, each to its end, just if no field is an empty string. -/
theorem lines_readBack_iff (hlines : ∀ l ∈ lines, l ≠ []) (htext : Draft.Finishes lines text) :
    (∃ r : Reader, (Reading.lines (lines.map (List.map Field.kind))).on (Reader.ofText text) =
        (.ok (lines.map fun l => (l.map Field.readBack, [])), r) ∧ r.atEnd) ↔
      ∀ l ∈ lines, .word "" ∉ l := by
  obtain rfl := htext.text_eq hlines
  constructor
  · rintro ⟨r, hread, _⟩ l hl hempty
    have hnone := ((obtains_lines _ _ (Reader.worded_ofText _)).of_ok hread).2
    apply hnone _ (List.mem_map_of_mem hl)
    exact List.mem_map.2 ⟨_, hempty, rfl⟩
  · intro hfull
    have hplain (l : Line) (hl : l ∈ lines) : l.Plain :=
      ⟨fun s hs hempty => hfull l hl (hempty ▸ hs), Line.words_ne_nil (hlines l hl)⟩
    obtain ⟨r, hread, hpage⟩ := reads_lines lines _ (Reader.page_ofText_of_plain hplain)
    refine ⟨r, hread, ?_⟩
    have hrest : r.rest.map Prod.snd = [] := congrArg Prod.snd hpage
    rw [Reader.atEnd, List.map_eq_nil_iff.1 hrest]
    rfl

def nameless : List Line := [[.word "lamp", .unsigned 2], [.word "", .id 7]]

/-- The id stands where the name was, and then the line is at its end. -/
theorem lines_readBack_nameless : (∀ l ∈ nameless, l ≠ []) ∧
    Draft.Finishes nameless "lamp 2\n 7\n" ∧
    ¬ ∃ r : Reader, (Reading.lines (nameless.map (List.map Field.kind))).on
        (Reader.ofText "lamp 2\n 7\n") =
      (.ok (nameless.map fun l => (l.map Field.readBack, [])), r) ∧ r.atEnd := by
  have hlines : ∀ l ∈ nameless, l ≠ [] := by simp [nameless]
  have htext : Draft.Finishes nameless "lamp 2\n 7\n" := Or.inl (by decide +kernel)
  have hline : [.word "", .id 7] ∈ nameless := by simp [nameless]
  refine ⟨hlines, htext, fun hread => ?_⟩
  exact (lines_readBack_iff hlines htext).1 hread _ hline List.mem_cons_self

end Reading

end DrawGraph
