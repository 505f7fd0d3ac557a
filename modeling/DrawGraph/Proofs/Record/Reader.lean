import DrawGraph.Proofs.Attempt
import DrawGraph.Proofs.Record.Field
import DrawGraph.Record.Reader

/-!
# Reading what was written

A reader sees the words left in its line and those of the lines to come. Each reading takes the
words that its field was written as and gives the field back, and readings in a row take the fields
in a row. The numbers of lines play no part as long as nothing fails.
-/

namespace DrawGraph

open Text

/-- The words of a line and those of the lines that follow it. -/
abbrev Page := List Word × List (List Word)

namespace Line

def words (l : Line) : List Word := l.flatMap Field.words

/-- The words that are found again in the text of a line. -/
def parts (l : Line) : List Word := l.words.filter fun w => !w.isEmpty

theorem isBlank_of_mem_words {l : Line} {w : Word} (hw : w ∈ l.words) {c : Char} (hc : c ∈ w) :
    isBlank c = false := by
  obtain ⟨f, _, hw⟩ := List.mem_flatMap.1 hw
  exact Field.isBlank_of_mem_words hw hc

/-- A line that can be found again in its text. -/
structure Plain (l : Line) : Prop where
  strings : ∀ s, .word s ∈ l → s ≠ ""
  words_ne_nil : l.words ≠ []

theorem Plain.isWord {l : Line} (h : l.Plain) {w : Word} (hw : w ∈ l.words) : IsWord w := by
  obtain ⟨f, hf, hw⟩ := List.mem_flatMap.1 hw
  exact Field.isWord_words (fun s hs => h.strings s (hs ▸ hf)) hw

theorem Plain.parts_eq {l : Line} (h : l.Plain) : l.parts = l.words := by
  apply List.filter_eq_self.2
  exact fun w hw => by simpa using (h.isWord hw).1

theorem mem_intercalate_space {ws : List Word} {c : Char} (h : c ∈ [' '].intercalate ws) :
    c = ' ' ∨ ∃ w ∈ ws, c ∈ w := by
  induction ws with
  | nil => cases h
  | cons w ws ih =>
      cases ws with
      | nil =>
          rw [List.intercalate_singleton] at h
          exact Or.inr ⟨w, List.mem_cons_self, h⟩
      | cons v vs =>
          rw [List.intercalate_cons_cons, List.mem_append, List.mem_append, List.mem_singleton] at h
          rcases h with (h | h) | h
          · exact Or.inr ⟨w, List.mem_cons_self, h⟩
          · exact Or.inl h
          · rcases ih h with hspace | ⟨u, hu, hc⟩
            · exact Or.inl hspace
            · exact Or.inr ⟨u, List.mem_cons_of_mem _ hu, hc⟩

theorem lines_renderAll (ls : List Line) :
    Text.lines (ls.flatMap render) = ls.map (fun l => [' '].intercalate l.words) ++ [[]] := by
  induction ls with
  | nil => rfl
  | cons l ls ih =>
      have hnewline : '\n' ∉ [' '].intercalate l.words := by
        intro hmem
        rcases mem_intercalate_space hmem with hspace | ⟨w, hw, hc⟩
        · cases hspace
        · have hblank := isBlank_of_mem_words hw hc
          revert hblank
          decide
      have hrender : render l = [' '].intercalate l.words ++ ['\n'] := rfl
      rw [List.flatMap_cons, hrender, List.append_assoc, List.singleton_append,
        Text.lines_append_newline hnewline, ih, List.map_cons, List.cons_append]

end Line

namespace Reader

def page (r : Reader) : Page := (r.words, r.rest.map Prod.snd)

theorem atEnd_eq_false {r : Reader} {ws : List Word} {ls : List (List Word)}
    (h : r.rest.map Prod.snd = ws :: ls) : r.atEnd = false := by
  rw [atEnd, List.isEmpty_eq_false_iff]
  intro hnil
  rw [hnil] at h
  cases h

theorem page_ofText (text : String) : (ofText text).page =
    ([], ((Text.lines text.toList).map Text.words).filter fun ws => !ws.isEmpty) := by
  have hnumbered (ls : List (List Char)) (k : Nat) :
      ((ls.zipIdx k).filterMap fun p =>
        if (Text.words p.1).isEmpty then none else some (p.2, Text.words p.1)).map Prod.snd =
      (ls.map Text.words).filter fun ws => !ws.isEmpty := by
    induction ls generalizing k with
    | nil => rfl
    | cons l ls ih =>
        rw [List.zipIdx_cons, List.filterMap_cons, List.map_cons, List.filter_cons]
        dsimp only
        cases (Text.words l).isEmpty with
        | true => exact ih (k + 1)
        | false => exact congrArg (Text.words l :: ·) (ih (k + 1))
  exact congrArg (Prod.mk []) (hnumbered _ 1)

/-- A reader of a written text sees its lines, but for what is empty. -/
theorem page_ofText_renderAll (ls : List Line) :
    (ofText (Line.renderAll ls)).page =
      ([], (ls.map Line.parts).filter fun ws => !ws.isEmpty) := by
  have hwords : (ls.map fun l => [' '].intercalate l.words).map Text.words =
      ls.map Line.parts := by
    rw [List.map_map]
    apply List.map_congr_left
    intro l _
    exact Text.words_intercalate_filter fun w hw c hc => Line.isBlank_of_mem_words hw hc
  rw [page_ofText, Line.renderAll, String.toList_ofList, Line.lines_renderAll, List.map_append,
    List.filter_append, hwords]
  exact congrArg (Prod.mk []) (List.append_nil _)

/-- A reader of a text without empty words sees just its lines. -/
theorem page_ofText_of_plain {ls : List Line} (h : ∀ l ∈ ls, l.Plain) :
    (ofText (Line.renderAll ls)).page = ([], ls.map Line.words) := by
  have hparts : ls.map Line.parts = ls.map Line.words :=
    List.map_congr_left fun l hl => (h l hl).parts_eq
  rw [page_ofText_renderAll, hparts]
  refine congrArg (Prod.mk []) (List.filter_eq_self.2 fun ws hws => ?_)
  obtain ⟨l, hl, rfl⟩ := List.mem_map.1 hws
  simpa using (h l hl).words_ne_nil

end Reader

/-- From one page the attempt gives `a` and goes on to another. -/
def Reads {ε α : Type} (x : Attempt ε Reader α) (p : Page) (a : α) (q : Page) : Prop :=
  ∀ r : Reader, r.page = p → ∃ r', x.on r = (.ok a, r') ∧ r'.page = q

section Reads

variable {ε ε' α β : Type} {x : Attempt ε Reader α} {p q s : Page} {a : α} {b : β}

theorem reads_pure (p : Page) (a : α) : Reads (pure a : Attempt ε Reader α) p a p :=
  fun r hr => ⟨r, rfl, hr⟩

theorem Reads.bind {f : α → Attempt ε Reader β} (hx : Reads x p a q) (hf : Reads (f a) q b s) :
    Reads (x >>= f) p b s := by
  intro r hr
  obtain ⟨r', hx, hr'⟩ := hx r hr
  obtain ⟨r'', hf, hr''⟩ := hf r' hr'
  exact ⟨r'', (Attempt.on_bind_of_ok hx).trans hf, hr''⟩

/-- What is done with the result of a reading. -/
theorem Reads.bind_pure {f : α → β} (hx : Reads x p a q) :
    Reads (x >>= fun a => pure (f a)) p (f a) q :=
  hx.bind (reads_pure q (f a))

theorem reads_get_bind {f : Reader → Attempt ε Reader β}
    (hf : ∀ r : Reader, r.page = p → Reads (f r) p b q) :
    Reads ((get : Attempt ε Reader Reader) >>= f) p b q := by
  intro r hr
  obtain ⟨r', hx, hr'⟩ := hf r hr r hr
  exact ⟨r', (Attempt.on_bind_of_ok (Attempt.on_get r)).trans hx, hr'⟩

/-- Where a reading succeeds, what was to be done on its failure is not. -/
theorem Reads.caught (hx : Reads x p a q) (f : ε → Attempt ε Reader α) :
    Reads (tryCatch x f) p a q := by
  intro r hr
  obtain ⟨r', hx, hr'⟩ := hx r hr
  refine ⟨r', ?_, hr'⟩
  rw [Attempt.on_tryCatch, hx]

theorem Reads.parsing {x : Reading α} (hx : Reads x p a q) (err : ParseError → ε') :
    Reads (x.zoom (fun r => r) (fun r _ => r) err) p a q := by
  intro r hr
  obtain ⟨r', hx, hr'⟩ := hx r hr
  refine ⟨r', ?_, hr'⟩
  rw [Attempt.on_zoom, hx]
  rfl

end Reads

namespace Reading

variable {w l : Word} {ws : List Word} {ls : List (List Word)} {α : Type}

theorem reads_nextLine (ws l : List Word) : Reads nextLine (ws, l :: ls) () (l, ls) := by
  apply reads_get_bind
  intro r hr
  obtain ⟨-, hrest⟩ := Prod.mk.inj hr
  obtain ⟨⟨i, l'⟩, rest, hcons, rfl, hls⟩ := List.map_eq_cons_iff.1 hrest
  rw [hcons]
  exact fun _ _ => ⟨_, rfl, Prod.ext rfl hls⟩

theorem reads_word : Reads word (w :: ws, ls) w (ws, ls) := by
  apply reads_get_bind
  intro r hr
  obtain ⟨hwords, hrest⟩ := Prod.mk.inj hr
  rw [hwords]
  exact fun r' hr' => ⟨_, rfl, Prod.ext rfl hrest⟩

theorem reads_keyword {s : String} (h : Text.escape s.toList = s.toList) :
    Reads (keyword s) ((Field.word s).words ++ ws, ls) () (ws, ls) := by
  apply reads_word.bind
  rw [if_pos h]
  exact reads_pure _ _

theorem reads_form {expected : String} {read : Word → Option α} {a : α} (h : read w = some a) :
    Reads (form expected read) (w :: ws, ls) a (ws, ls) := by
  apply reads_word.bind
  rw [h]
  exact reads_pure _ _

theorem reads_ident (n : Id) : Reads ident ((Field.id n).words ++ ws, ls) n (ws, ls) :=
  reads_form (Text.uint32?_numeral n)

theorem reads_unsigned (n : UInt32) :
    Reads unsigned ((Field.unsigned n).words ++ ws, ls) n (ws, ls) :=
  reads_form (Text.uint32?_numeral n)

theorem reads_integer (n : Int32) :
    Reads integer ((Field.integer n).words ++ ws, ls) n (ws, ls) :=
  reads_form (Text.int32?_numeral n)

theorem reads_count (n : UInt32) :
    Reads count ((Field.unsigned n).words ++ ws, ls) n.toNat (ws, ls) :=
  reads_form (Text.uint64?_numeral n)

theorem reads_tagged {table : String} {ofTag? : Nat → Option α} {n : Nat} {a : α}
    (hn : n < UInt32.size) (ha : ofTag? n = some a) :
    Reads (tagged table ofTag?) ((Field.unsigned (.ofNat n)).words ++ ws, ls) a (ws, ls) := by
  apply (reads_unsigned _).bind
  rw [UInt32.toNat_ofNat_of_lt' hn, ha]
  exact reads_pure _ _

theorem unsignedWord_ne_dash (n : UInt32) : Field.unsignedWord n ≠ Field.dash := by
  obtain ⟨c, cs, hcs, _, hminus⟩ := Text.head_numeral n.toNat
  rw [Field.unsignedWord, hcs, Field.dash]
  exact fun h => hminus (List.cons.inj h).1

theorem reads_optionalId (n : Option Id) :
    Reads optionalId ((Field.optionalId n).words ++ ws, ls) n (ws, ls) := by
  cases n with
  | none =>
      apply reads_word.bind
      rw [if_neg (by decide), show Text.int64? (Field.integerWord (-1)) = some (-1) by decide]
      exact reads_pure _ _
  | some n =>
      have hlt : (n.toNat : Int) < UInt32.size := Int.ofNat_lt.2 n.toNat_lt
      apply reads_word.bind
      rw [if_neg (unsignedWord_ne_dash n), Field.unsignedWord, Text.int64?_numeral]
      dsimp only
      rw [if_neg (by omega), if_pos hlt, Int.toNat_natCast, UInt32.ofNat_toNat]
      exact reads_pure _ _

/-! ## Numbers -/

theorem reads_number (x : Float32) :
    Reads number ((Field.number x).words ++ ws, ls) x (ws, ls) :=
  reads_form (Binary32.ofText?_text x)

theorem reads_numbers {n : Nat} (v : Vector Float32 n) :
    Reads (numbers n) (v.toList.map Field.numberWord ++ ws, ls) v (ws, ls) := by
  induction n generalizing ws with
  | zero =>
      rw [v.eq_empty]
      exact reads_pure _ _
  | succ n ih =>
      rw [← Vector.push_pop_back v, Vector.toList_push, List.map_append, List.append_assoc]
      exact (ih v.pop).bind (reads_number v.back).bind_pure

theorem reads_float3 (v : Vec3) :
    Reads (numbers 3) ((Field.value (.float3 v)).words ++ ws, ls) v (ws, ls) :=
  reads_numbers v

theorem reads_value (v : Value) :
    Reads (value v.kind) ((Field.value v).words ++ ws, ls) v (ws, ls) := by
  cases v with
  | float x => exact (reads_number x).bind_pure
  | int n => exact (reads_integer n).bind_pure
  | float2 v => exact (reads_numbers v).bind_pure
  | float3 v => exact (reads_numbers v).bind_pure
  | float4 v => exact (reads_numbers v).bind_pure
  | float4x4 m => exact (reads_numbers m).bind_pure

/-! ## Strings -/

theorem reads_unescaped {s : String} (h : Text.unescape? w = some s.toList) (p : Page) :
    Reads (unescaped w) p s p := by
  unfold unescaped
  rw [h]
  dsimp only
  rw [String.ofList_toList]
  exact reads_pure _ _

theorem reads_string (s : String) : Reads string ((Field.word s).words ++ ws, ls) s (ws, ls) :=
  reads_word.bind (reads_unescaped (Text.unescape?_escape _) _)

/-- An empty text is read back as none. -/
theorem reads_text (s : Option String) :
    Reads text ((Field.text s).words ++ ws, ls) (s.filter (· ≠ "")) (ws, ls) := by
  apply reads_word.bind
  cases s with
  | none => exact reads_pure _ _
  | some s =>
      by_cases hempty : s = ""
      · subst hempty
        exact reads_pure _ _
      have hkept : (some s).filter (· ≠ "") = some s := by simp [hempty]
      rw [hkept]
      by_cases hdash : s = "-"
      · subst hdash
        have hword : Field.textWord (some "-") = Text.escapeByte 0x2D := rfl
        rw [hword, if_neg (by decide)]
        exact (reads_unescaped Text.unescape?_escapeByte_dash _).bind_pure
      · have hword : Field.textWord (some s) = Text.escape s.toList := by
          rw [Field.textWord, if_neg hempty, if_neg hdash]
        have hne : Text.escape s.toList ≠ Field.dash := by
          intro heq
          have hs := Text.eq_of_escape_eq_dash heq
          exact hdash (String.toList_inj.1 hs)
        rw [hword, if_neg hne]
        exact (reads_unescaped (Text.unescape?_escape _) _).bind_pure

end Reading

end DrawGraph
