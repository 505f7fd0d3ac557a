import DrawGraph.Proofs.Document
import DrawGraph.Proofs.Record.Inline
import DrawGraph.Proofs.UiNode.Load

/-!
# Records that are passed over

A record cannot be read when a variable in it has no name, or when a constant has the value of
another kind. Such a record is passed over up to the next one. So a text that was written gives the
graph and some of the UI nodes, in their order and the same to a document; it is refused only if a
draw node has more inputs than its record can count.
-/

namespace DrawGraph

open Reading UiNode

namespace Reader

variable {r : Reader} {ls : List (List Word)}

/-- The words of the lines to come. -/
def ahead (r : Reader) : List (List Word) := r.rest.map Prod.snd

theorem ahead_of_page {p : Page} (h : r.page = p) : r.ahead = p.2 := congrArg Prod.snd h

/-- Before `ls` there are only lines that start no record. -/
def Amid (ls : List (List Word)) (r : Reader) : Prop :=
  ∃ between, r.ahead = between ++ ls ∧
    ∀ ws ∈ between, ws.head? ≠ some Document.uiWord.toList

theorem amid_of_ahead (h : r.ahead = ls) : r.Amid ls := ⟨[], h, by simp⟩

theorem ahead_skipFrom {between : List (List Word)} {rest : List (Nat × List Word)}
    (hls : ∀ ws ∈ ls.head?, ws.head? = some Document.uiWord.toList)
    (hbetween : ∀ ws ∈ between, ws.head? ≠ some Document.uiWord.toList)
    (hrest : rest.map Prod.snd = between ++ ls) (line : Nat) (words : List Word) :
    (skipFrom Document.uiWord.toList line words rest).ahead = ls := by
  induction between generalizing line words rest with
  | nil =>
      cases rest with
      | nil => exact hrest
      | cons l rest =>
          obtain ⟨i, ws⟩ := l
          have hhead : ws.head? = some Document.uiWord.toList := by
            apply hls
            rw [← List.nil_append ls, ← hrest]
            rfl
          rw [skipFrom, if_pos hhead]
          exact hrest
  | cons b between ih =>
      obtain ⟨⟨i, ws⟩, rest, rfl, rfl, htail⟩ := List.map_eq_cons_iff.1 hrest
      obtain ⟨hb, hbetween⟩ := List.forall_mem_cons.1 hbetween
      rw [skipFrom, if_neg hb]
      exact ih hbetween htail i []

theorem Amid.of_append {more : List (List Word)} (h : r.Amid (more ++ ls))
    (hmore : ∀ ws ∈ more, ws.head? ≠ some Document.uiWord.toList) : r.Amid ls := by
  obtain ⟨between, hahead, hbetween⟩ := h
  refine ⟨between ++ more, by rw [hahead, List.append_assoc], fun ws hws => ?_⟩
  exact (List.mem_append.1 hws).elim (hbetween ws) (hmore ws)

/-- Passing over leads to the next record. -/
theorem Amid.ahead_skipUntil (h : r.Amid ls)
    (hls : ∀ ws ∈ ls.head?, ws.head? = some Document.uiWord.toList) :
    (r.skipUntil Document.uiWord.toList).ahead = ls := by
  obtain ⟨between, hahead, hbetween⟩ := h
  exact ahead_skipFrom hls hbetween hahead r.line r.words

end Reader

section Ensures

variable {ε α β : Type} {x : Attempt ε Reader α} {p q : Page} {a : α} {r : Reader}
  {fails : ε → Reader → Prop} {ends : β → Reader → Prop}

/-- After a reading that succeeds, what follows decides. -/
theorem Reads.ensures_bind {f : α → Attempt ε Reader β} (hx : Reads x p a q) (hr : r.page = p)
    (hf : ∀ r' : Reader, r'.page = q → (f a).Ensures r' fails ends) :
    (x >>= f).Ensures r fails ends := by
  obtain ⟨r', hx, hr'⟩ := hx r hr
  exact Attempt.ensures_bind_of_ok hx (hf r' hr')

theorem Reads.ensures {ends : α → Reader → Prop} (hx : Reads x p a q) (hr : r.page = p)
    (ha : ∀ r' : Reader, r'.page = q → ends a r') : x.Ensures r fails ends := by
  obtain ⟨r', hx, hr'⟩ := hx r hr
  exact Attempt.ensures_of_ok hx (ha r' hr')

theorem ensures_parsing {x : Reading α} {fails : Reader → Prop} {ends : α → Reader → Prop}
    (hx : x.Ensures r (fun _ => fails) ends) :
    (Document.parsing x).Ensures r (fun _ => fails) ends := by
  unfold Attempt.Ensures at hx ⊢
  rw [Document.parsing, Attempt.on_zoom]
  cases hres : x.on r with
  | mk result r' =>
    rw [hres] at hx
    cases result with
    | ok a => exact hx
    | error e => exact hx

end Ensures

theorem Reading.Inline.preserves_ahead {α : Type} {x : Reading α} (hx : Inline x) :
    x.Preserves Reader.ahead := by
  intro r
  obtain ⟨result, left, _, hon⟩ := hx r.words
  exact congrArg (fun p => p.2.ahead) (hon r.line r.rest)

namespace UiNode

variable {values : ValueStore} {n : UiNode} {r : Reader} {ls : List (List Word)}

/-- Before `ls` a reader has come to, or to lines of a record with too many inputs to count. -/
def Ends (n : UiNode) (ls : List (List Word)) (r : Reader) : Prop :=
  r.Amid ls ∧ (n.bindings.length < UInt32.size → r.ahead = ls)

theorem ends_of_ahead (h : r.ahead = ls) : n.Ends ls r := ⟨Reader.amid_of_ahead h, fun _ => h⟩

/-- A reading of the record of a UI node: what it gives is the same to a document as what the record
tells of, and if it fails, the record does not tell of the UI node. -/
def Rereads (values : ValueStore) (n : UiNode) (ls : List (List Word)) (x : Reading UiNode)
    (r : Reader) : Prop :=
  x.Ensures r (fun _ r' => r'.Amid ls ∧ ¬n.Recordable values)
    fun n' r' => n'.essence = (n.counted values).essence ∧ n.Ends ls r'

/-- Whatever the value, its constant is read or the line is left. -/
theorem rereads_constant {kind : ConstantKind} {id output : Id} {loaded : Value}
    (hn : ¬(constant kind id output loaded).Recordable values)
    (hr : r.page = (((constant kind id output loaded).record values).1.words, ls)) :
    (constant kind id output loaded).Rereads values ls (readConstant kind) r := by
  refine (reads_ident id).ensures_bind hr fun r₁ hr₁ => ?_
  refine (reads_ident output).ensures_bind hr₁ fun r₂ hr₂ => ?_
  have hstay := (inline_value kind.valueKind).preserves_ahead r₂
  rw [Reader.ahead_of_page hr₂] at hstay
  unfold Attempt.Ensures
  rw [Attempt.on_bind]
  split
  · next a t h =>
    split at h
    · next v' t' hv =>
      rw [hv] at hstay
      cases h
      exact ⟨rfl, ends_of_ahead hstay⟩
    · cases h
  · next err t h =>
    split at h
    · cases h
    · next err' t' hv =>
      rw [hv] at hstay
      cases h
      exact ⟨Reader.amid_of_ahead hstay, hn⟩

/-- The line of a variable starts with a number. -/
theorem parts_bindingLine (b : Binding) :
    ∃ c cs, c.isDigit ∧ (bindingLine b).parts.head? = some (c :: cs) := by
  obtain ⟨c, cs, hcs⟩ := List.exists_cons_of_ne_nil (Field.isWord_unsignedWord b.pin).1
  refine ⟨c, cs, Text.isDigit_of_mem_numeral (hcs ▸ List.mem_cons_self), ?_⟩
  simp [Line.parts, Line.words, bindingLine, Field.words, hcs]

theorem head?_parts_bindingLine (b : Binding) :
    (bindingLine b).parts.head? ≠ some Document.uiWord.toList := by
  obtain ⟨c, cs, hdigit, hhead⟩ := parts_bindingLine b
  rw [hhead]
  intro heq
  obtain ⟨rfl, _⟩ := List.cons.inj (Option.some.inj heq)
  revert hdigit
  decide

theorem head?_bindingLines {bs : List Binding} {ws : List Word}
    (hws : ws ∈ (bs.map bindingLine).map Line.parts) : ws.head? ≠ some Document.uiWord.toList := by
  obtain ⟨l, hl, rfl⟩ := List.mem_map.1 hws
  obtain ⟨b, _, rfl⟩ := List.mem_map.1 hl
  exact head?_parts_bindingLine b

/-- A variable without a name leaves too few words. -/
theorem readBinding_unnamed {b : Binding} (hb : b.name = "")
    (hr : r.ahead = (bindingLine b).parts :: ls) :
    readBinding.Ensures r (fun _ r' => r'.ahead = ls) fun _ _ => False := by
  have hparts : (bindingLine b).parts =
      (Field.id b.pin).words ++ ((Field.word b.type.name).words ++ []) := by
    have hpin : ((Field.unsignedWord b.pin).isEmpty) = false := by
      simpa using (Field.isWord_unsignedWord b.pin).1
    have htype : ((Text.escape b.type.name.toList).isEmpty) = false := by
      cases b.type <;> decide
    have hname : (Text.escape b.name.toList).isEmpty = true := by
      rw [hb]
      rfl
    simp [Line.parts, Line.words, bindingLine, Field.words, hpin, htype, hname]
  have hpage : r.page = (r.words, (bindingLine b).parts :: ls) := Prod.ext rfl hr
  refine (reads_nextLine _ _).ensures_bind hpage fun r₁ hr₁ => ?_
  rw [hparts] at hr₁
  refine (reads_ident b.pin).ensures_bind hr₁ fun r₂ hr₂ => ?_
  refine (reads_string b.type.name).ensures_bind hr₂ fun r₃ hr₃ => ?_
  have hend : string.Ensures r₃ (fun _ r' => r'.ahead = ls) fun _ _ => False := by
    refine Attempt.Ensures.bind (?_ : Attempt.Ensures _ r₃ _ fun _ _ => False) fun _ _ h => h.elim
    refine Attempt.ensures_get_bind ?_
    rw [show r₃.words = [] from congrArg Prod.fst hr₃]
    exact Attempt.ensures_of_error rfl (Reader.ahead_of_page hr₃)
  exact hend.bind fun _ _ h => h.elim

theorem readBindings_unnamed {bs : List Binding} (hb : ∃ b ∈ bs, b.name = "")
    (hr : r.ahead = (bs.map bindingLine).map Line.parts ++ ls) :
    (readBindings bs.length).Ensures r (fun _ r' => r'.Amid ls) fun _ _ => False := by
  induction bs generalizing r with
  | nil => simp at hb
  | cons b bs ih =>
      by_cases hname : b.name = ""
      · have hfail := readBinding_unnamed hname (show r.ahead = (bindingLine b).parts ::
          ((bs.map bindingLine).map Line.parts ++ ls) from hr)
        refine (hfail.mono_error fun _ r' hr' => ?_).bind fun _ _ h => h.elim
        exact ⟨_, hr', fun ws => head?_bindingLines⟩
      · have hrest : ∃ b ∈ bs, b.name = "" := by simpa [hname] using hb
        have hpage : r.page = (r.words,
            (bindingLine b).words :: ((bs.map bindingLine).map Line.parts ++ ls)) := by
          rw [← (plain_bindingLine hname).parts_eq]
          exact Prod.ext rfl hr
        refine (reads_readBinding b _ _).ensures_bind hpage fun r' hr' => ?_
        exact (ih hrest (Reader.ahead_of_page hr')).bind fun _ _ h => h.elim

/-- The record of a draw node is read, unless a variable that is counted has no name. -/
theorem rereads_draw {d : Draw} (hr : r.page = (((draw d).record values).1.words,
    ((draw d).record values).2.map Line.parts ++ ls)) :
    (draw d).Rereads values ls readDraw r := by
  generalize hcounted : d.bindings.take (d.bindings.length % UInt32.size) = counted
  rw [record_draw, hcounted, List.map_append, List.append_assoc] at hr
  by_cases hnamed : ∀ b ∈ counted, b.name ≠ ""
  · have hparts : (counted.map bindingLine).map Line.parts =
        (counted.map bindingLine).map Line.words := by
      apply List.map_congr_left
      intro l hl
      obtain ⟨b, hb, rfl⟩ := List.mem_map.1 hl
      exact (plain_bindingLine (hnamed b hb)).parts_eq
    rw [hparts, ← hcounted] at hr
    refine (reads_countedDraw d _).ensures hr fun r' hr' => ⟨rfl, ?_⟩
    have hahead := Reader.ahead_of_page hr'
    refine ⟨⟨_, hahead, fun ws => head?_bindingLines⟩, fun hcount => ?_⟩
    rw [uncounted_eq_nil hcount] at hahead
    exact hahead
  · push Not at hnamed
    have hcount : (UInt32.ofNat d.bindings.length).toNat = counted.length := by
      rw [← hcounted, List.length_take, Nat.min_eq_left (Nat.mod_le _ _)]
      rfl
    refine (reads_ident d.id).ensures_bind hr fun r₁ hr₁ => ?_
    refine (reads_ident d.model).ensures_bind hr₁ fun r₂ hr₂ => ?_
    refine (reads_ident d.shader).ensures_bind hr₂ fun r₃ hr₃ => ?_
    refine (reads_ident d.output).ensures_bind hr₃ fun r₄ hr₄ => ?_
    refine (reads_count (.ofNat d.bindings.length)).ensures_bind hr₄ fun r₅ hr₅ => ?_
    refine (reads_float3 d.color).ensures_bind hr₅ fun r₆ hr₆ => ?_
    rw [hcount]
    have hleft := readBindings_unnamed hnamed (Reader.ahead_of_page hr₆)
    refine (hleft.mono_error fun _ r' hr' => ⟨?_, fun hrecord => ?_⟩).bind fun _ _ h => h.elim
    · exact hr'.of_append fun ws => head?_bindingLines
    · obtain ⟨b, hb, hname⟩ := hnamed
      exact hrecord.1 b (List.mem_of_mem_take (hcounted ▸ hb)) hname

/-- The record of a UI node gives what is the same to a document, if it can be read at all. -/
theorem rereads (n : UiNode)
    (hr : r.page = ((n.record values).1.words, (n.record values).2.map Line.parts ++ ls)) :
    n.Rereads values ls (read n.kind) r := by
  by_cases hdraw : ∃ d, n = draw d
  · obtain ⟨d, rfl⟩ := hdraw
    exact rereads_draw hr
  have hone : (n.record values).2 = [] ∧ n.counted values = n.recorded values := by
    cases n with
    | draw d => exact absurd ⟨d, rfl⟩ hdraw
    | binary | sine | time | constant | asset | primitive | camera | transform | renderTarget =>
        exact ⟨rfl, rfl⟩
  rw [hone.1] at hr
  by_cases hn : n.Recordable values
  · have hread := reads_read_recorded hn ls
    rw [hone.1] at hread
    refine hread.ensures hr fun r' hr' => ⟨?_, ends_of_ahead (Reader.ahead_of_page hr')⟩
    rw [hone.2]
  · cases n with
    | draw d => exact absurd ⟨d, rfl⟩ hdraw
    | constant kind id output loaded =>
        have hkind : read (constant kind id output loaded).kind = readConstant kind := by
          cases kind <;> rfl
        rw [hkind]
        exact rereads_constant hn hr
    | binary | sine | time | asset | primitive | camera | transform | renderTarget =>
        exact absurd trivial hn

end UiNode

namespace Document

variable {g : Graph} {values : ValueStore} {n : UiNode} {r : Reader} {ls : List (List Word)}

/-- A record that cannot be read leads to the next one. -/
theorem readUiNode_ensures (hls : ∀ ws ∈ ls.head?, ws.head? = some uiWord.toList)
    (hr : r.ahead = (uiLines values n).map Line.parts ++ ls) :
    readUiNode.Ensures r (fun _ _ => False) fun found r' => n.Ends ls r' ∧
      (∀ n', found = some n' → n'.essence = (n.counted values).essence) ∧
        (n.Recordable values → found ≠ none) := by
  have htag : n.kind.tag < UInt32.size := by cases n.kind <;> decide
  have hpage : r.page = (r.words, (uiLines values n).map Line.parts ++ ls) := Prod.ext rfl hr
  rw [uiLines.eq_def, List.map_cons, (plain_firstLine values n).parts_eq] at hpage
  refine (reads_nextLine _ _).ensures_bind hpage fun r₁ hr₁ => ?_
  refine (reads_keyword (by decide)).ensures_bind hr₁ fun r₂ hr₂ => ?_
  refine (reads_unsigned _).ensures_bind hr₂ fun r₃ hr₃ => ?_
  rw [UInt32.toNat_ofNat_of_lt' htag, UiNodeKind.ofTag?_tag]
  refine Attempt.Ensures.bind (?_ : Attempt.Ensures _ r₃ _ fun e r' => ∃ found,
    e = .error found ∧ n.Ends ls r' ∧
      (∀ n', found = some n' → n'.essence = (n.counted values).essence) ∧
        (n.Recordable values → found ≠ none)) ?_
  · have hread := rereads n hr₃
    refine Attempt.Ensures.caught (hread.bind fun n' r' hn' => ?_) fun _ r' hr' => ?_
    · refine Attempt.ensures_pure ⟨_, rfl, hn'.2, ?_, fun _ => nofun⟩
      rintro m ⟨⟩
      exact hn'.1
    · refine Attempt.ensures_modify_bind (Attempt.ensures_pure ?_)
      exact ⟨none, rfl, ends_of_ahead (hr'.1.ahead_skipUntil hls), nofun, fun hn => absurd hn hr'.2⟩
  · rintro _ r' ⟨found, rfl, hfound⟩
    exact Attempt.ensures_pure hfound

/-- Where the next line starts no record, none is read. -/
theorem readUiNode_amid (hr : r.Amid ls) (hne : r.ahead ≠ ls) :
    readUiNode.Ensures r (fun _ _ => True) fun _ _ => False := by
  obtain ⟨between, hahead, hbetween⟩ := hr
  cases between with
  | nil => exact absurd hahead hne
  | cons ws between =>
      have hhead := hbetween ws List.mem_cons_self
      have hpage : r.page = (r.words, ws :: (between ++ ls)) := Prod.ext rfl hahead
      refine (reads_nextLine _ _).ensures_bind hpage fun r₁ hr₁ => ?_
      have hkeyword : Attempt.Ensures (keyword uiWord) r₁ (fun _ _ => True) fun _ _ => False := by
        cases ws with
        | nil =>
            have hword : word.on r₁ = (Reading.fail .endOfLine : Reading Word).on r₁ := by
              rw [word, Attempt.on_bind_of_ok (Attempt.on_get r₁), (Prod.mk.inj hr₁).1]
            exact Attempt.ensures_of_error (Attempt.on_bind_of_error hword) trivial
        | cons w ws =>
            refine reads_word.ensures_bind hr₁ fun r₂ _ => ?_
            rw [if_neg fun hw => hhead (congrArg some hw)]
            exact Attempt.ensures_of_error rfl trivial
      exact hkeyword.bind fun _ _ h => h.elim

/-- UI nodes that stand in the order of others and are the same as these to a document. -/
def Salvages (nodes found : List UiNode) : Prop :=
  ∃ kept : List UiNode, kept.Sublist nodes ∧ found.map essence = kept.map essence

/-- Of UI nodes whose records follow those of `before`, the ones in `kept` are found again, with as
many inputs as are counted. They fit the graph, and of those that fit none is missing whose record
tells of it. -/
structure Recovers (g : Graph) (values : ValueStore) (before nodes kept found : List UiNode) :
    Prop where
  sublist : kept.Sublist nodes
  essence : found.map essence = (kept.map (counted values)).map essence
  fits : ∀ n ∈ kept, resolves g (n.counted values)
  complete : ((before ++ nodes).map UiNode.id).Nodup →
    ∀ n ∈ nodes, n.Recordable values → resolves g n → n ∈ kept

/-- Whether a UI node fits the graph can be told from what a document keeps of it. -/
theorem resolves_of_essence {n' : UiNode} (h : n'.essence = n.essence) :
    resolves g n' = resolves g n := by
  have hessence (n : UiNode) : resolves g n = resolves g n.essence := by cases n <;> rfl
  rw [hessence, h, ← hessence]

/-- A UI node whose inputs can be counted is the same to a document as what is read of it. -/
theorem essence_counted (h : n.bindings.length < UInt32.size) :
    (n.counted values).essence = n.essence := by
  rw [counted_eq_iff.2 h, essence_recorded]

section Recovers

variable {before nodes kept found : List UiNode}

theorem Recovers.salvages (h : Recovers g values before nodes kept found)
    (hcount : ∀ n ∈ nodes, n.bindings.length < UInt32.size) : Salvages nodes found := by
  refine ⟨kept, h.sublist, ?_⟩
  rw [h.essence, List.map_map]
  exact List.map_congr_left fun n hn => essence_counted (hcount n (h.sublist.subset hn))

/-- A record is passed over. -/
theorem Recovers.cons (h : Recovers g values before nodes kept found)
    (hn : ((before ++ n :: nodes).map UiNode.id).Nodup → n.Recordable values → ¬resolves g n) :
    Recovers g values before (n :: nodes) kept found where
  sublist := h.sublist.cons n
  essence := h.essence
  fits := h.fits
  complete hnodup m hm hrecord hfits := by
    rcases List.mem_cons.1 hm with rfl | hm
    · exact absurd hfits (hn hnodup hrecord)
    · refine h.complete (hnodup.sublist (List.Sublist.map _ ?_)) m hm hrecord hfits
      exact (List.sublist_cons_self n nodes).append_left before

/-- A record is taken in. -/
theorem Recovers.cons_cons {n' : UiNode} (h : Recovers g values (before ++ [n']) nodes kept found)
    (hn' : n'.essence = (n.counted values).essence) (hfits : resolves g (n.counted values)) :
    Recovers g values before (n :: nodes) (n :: kept) (n' :: found) where
  sublist := h.sublist.cons_cons n
  essence := by rw [List.map_cons, List.map_cons, List.map_cons, hn', h.essence]
  fits := List.forall_mem_cons.2 ⟨hfits, h.fits⟩
  complete hnodup m hm hrecord hfits := by
    rcases List.mem_cons.1 hm with rfl | hm
    · exact List.mem_cons_self
    · have hid : n'.id = n.id := by rw [← id_essence, hn', id_essence, id_counted]
      refine List.mem_cons_of_mem n (h.complete ?_ m hm hrecord hfits)
      simpa [hid] using hnodup

end Recovers

/-- Each record starts with its word. -/
theorem head?_uiLines (nodes : List UiNode) :
    ∀ ws ∈ ((nodes.flatMap (uiLines values)).map Line.parts).head?,
      ws.head? = some uiWord.toList := by
  cases nodes with
  | nil => simp
  | cons n nodes =>
      have hfirst : (((n :: nodes).flatMap (uiLines values)).map Line.parts).head? =
          some (Line.parts (.word uiWord :: .unsigned (.ofNat n.kind.tag) ::
            (n.record values).1)) := rfl
      rw [hfirst, (plain_firstLine values n).parts_eq]
      rintro ws ⟨⟩
      rfl

/-- Of the UI nodes whose records follow, those that can be read and fit are taken in. Reading fails
only behind a record with too many inputs to count. -/
theorem readUiNodes_ensures {fails : Prop} {before nodes : List UiNode}
    (hcount : ∀ n ∈ nodes, UInt32.size ≤ n.bindings.length → fails)
    (hr : r.Amid ((nodes.flatMap (uiLines values)).map Line.parts))
    (hastray : r.ahead ≠ (nodes.flatMap (uiLines values)).map Line.parts → fails) :
    (readUiNodes g before nodes.length).Ensures r (fun _ _ => fails) fun taken _ =>
      ∃ kept found, taken = before ++ found ∧ Recovers g values before nodes kept found := by
  induction nodes generalizing before r with
  | nil =>
      refine Attempt.ensures_pure ⟨[], [], (List.append_nil _).symm, .refl _, rfl, ?_, ?_⟩
      · exact fun _ hn => nomatch hn
      · exact fun _ _ hn => nomatch hn
  | cons n nodes ih =>
      obtain ⟨hn, hcount⟩ := List.forall_mem_cons.1 hcount
      refine Attempt.ensures_get_bind ?_
      have hmore : r.atEnd = false := by
        obtain ⟨between, hahead, -⟩ := hr
        cases between with
        | nil => exact Reader.atEnd_eq_false hahead
        | cons ws between => exact Reader.atEnd_eq_false hahead
      rw [hmore]
      by_cases hahead : r.ahead = ((n :: nodes).flatMap (uiLines values)).map Line.parts
      swap
      · have hfail := (readUiNode_amid hr hahead).mono_error fun _ _ _ => hastray hahead
        exact hfail.bind fun _ _ h => h.elim
      rw [List.flatMap_cons, List.map_append] at hahead
      have hread := readUiNode_ensures (head?_uiLines nodes) hahead
      refine (hread.mono_error fun _ _ h => h.elim).bind ?_
      rintro found r' ⟨hr', hfound, hread⟩
      have hastray : r'.ahead ≠ (nodes.flatMap (uiLines values)).map Line.parts → fails :=
        fun hne => hn (Nat.le_of_not_lt fun hlt => hne (hr'.2 hlt))
      have hpass (hn : ((before ++ n :: nodes).map UiNode.id).Nodup → n.Recordable values →
          ¬resolves g n) : (readUiNodes g before nodes.length).Ensures r' (fun _ _ => fails)
          fun taken _ => ∃ kept found, taken = before ++ found ∧
            Recovers g values before (n :: nodes) kept found := by
        refine (ih hcount hr'.1 hastray).mono_ok ?_
        rintro _ _ ⟨kept, rest, htaken, hrest⟩
        exact ⟨kept, rest, htaken, hrest.cons hn⟩
      cases found with
      | none => exact hpass fun _ hrecord => absurd rfl (hread hrecord)
      | some n' =>
          have hn' := hfound n' rfl
          dsimp only
          split
          · next htake =>
            rw [Bool.and_eq_true, resolves_of_essence hn'] at htake
            refine (ih hcount hr'.1 hastray).mono_ok ?_
            rintro _ _ ⟨kept, rest, rfl, hrest⟩
            exact ⟨n :: kept, n' :: rest, List.append_assoc .., hrest.cons_cons hn' htake.1⟩
          · next htake =>
            refine hpass fun hnodup hrecord hfits => htake ?_
            have hlt := (recordable_iff.1 hrecord).2
            rw [Bool.and_eq_true, resolves_of_essence (hn'.trans (essence_counted hlt))]
            refine ⟨hfits, ?_⟩
            -- its identity is none of those before
            rw [Bool.not_eq_true', List.any_eq_false]
            intro m hm hid
            rw [List.map_append, List.nodup_append] at hnodup
            have hid : m.id = n.id := by
              rw [← id_counted values n, ← id_essence (n.counted values), ← hn', id_essence]
              simpa using hid
            exact hnodup.2.2 _ (List.mem_map_of_mem hm) _ (List.mem_map_of_mem List.mem_cons_self)
              hid

/-- What a reader sees of the text of a document. -/
def page (d : Document) (values : ValueStore) : Page :=
  ([], (graphLines d.graph).map Line.words ++
    Line.words [.word uiHeader] :: Line.words [.optionalId d.root] ::
      (countLine d.nodes.length).words :: (d.nodes.flatMap (uiLines values)).map Line.parts)

theorem parts_uiLines {l : Line} (hl : l ∈ uiLines values n) : l.parts ≠ [] := by
  rw [uiLines.eq_def, List.mem_cons] at hl
  rcases hl with rfl | hl
  · rw [(plain_firstLine values n).parts_eq]
    exact (plain_firstLine values n).words_ne_nil
  · cases n with
    | draw d =>
        obtain ⟨b, _, rfl⟩ := List.mem_map.1 hl
        obtain ⟨_, _, _, hcs⟩ := parts_bindingLine b
        intro hnil
        rw [hnil] at hcs
        cases hcs
    | binary | sine | time | constant | asset | primitive | camera | transform | renderTarget =>
        cases hl

variable {d : Document}

theorem page_ofText_render (d : Document) (values : ValueStore) :
    (Reader.ofText (d.render values)).page = d.page values := by
  have hhead : ∀ l ∈ graphLines d.graph ++
      [[.word uiHeader], [.optionalId d.root], countLine d.nodes.length], l.Plain := by
    intro l hl
    rcases List.mem_append.1 hl with hl | hl
    · exact plain_graphLines hl
    · simp only [List.mem_cons, List.not_mem_nil, or_false] at hl
      rcases hl with rfl | rfl | rfl
      · exact plain_of_word (by decide) fun _ ht => by cases ht
      · exact plain_rootLine d.root
      · exact plain_countLine _
  have hlines : d.lines values = (graphLines d.graph ++
      [[.word uiHeader], [.optionalId d.root], countLine d.nodes.length]) ++
        d.nodes.flatMap (uiLines values) := by
    simp [lines]
  have hparts : (graphLines d.graph ++
      [[.word uiHeader], [.optionalId d.root], countLine d.nodes.length]).map Line.parts =
      (graphLines d.graph ++
        [[.word uiHeader], [.optionalId d.root], countLine d.nodes.length]).map Line.words :=
    List.map_congr_left fun l hl => (hhead l hl).parts_eq
  have hfull : ((d.lines values).map Line.parts).filter (fun ws => !ws.isEmpty) =
      (d.lines values).map Line.parts := by
    apply List.filter_eq_self.2
    intro ws hws
    obtain ⟨l, hl, rfl⟩ := List.mem_map.1 hws
    rw [hlines, List.mem_append] at hl
    have hne : l.parts ≠ [] := by
      rcases hl with hl | hl
      · rw [(hhead l hl).parts_eq]
        exact (hhead l hl).words_ne_nil
      · obtain ⟨n, _, hl⟩ := List.mem_flatMap.1 hl
        exact parts_uiLines hl
    simpa using hne
  rw [render, Reader.page_ofText_renderAll, hfull, hlines, List.map_append, hparts]
  simp [page]

/-- The text of a document gives the graph made anew, and of the UI nodes those that fit and whose
records can be read; unless there are too many inputs to count. -/
theorem load_ensures (hc : d.graph.Consistent) (hfew : d.nodes.length < UInt32.size)
    (hr : r.page = d.page values) :
    load.Ensures r (fun _ _ => ∃ n ∈ d.nodes, UInt32.size ≤ n.bindings.length) fun read _ =>
      ∃ kept found, Recovers d.graph values [] d.nodes kept found ∧ read =
        { graph := d.graph.rebuild
          root := d.root.filter d.graph.hasNode
          nodes := found } := by
  have hresolves : resolves d.graph.rebuild = resolves d.graph :=
    funext (resolves_rebuild d.graph)
  have hnode : d.graph.rebuild.hasNode = d.graph.hasNode := by
    funext id
    rw [Graph.hasNode, Graph.hasNode, Graph.nodes_rebuild]
  refine (reads_readGraph hc _).ensures_bind hr fun r₁ hr₁ => ?_
  refine ((reads_readRoot _ _).parsing _).ensures_bind hr₁ fun r₂ hr₂ => ?_
  refine ((reads_readCount hfew _ _).parsing _).ensures_bind hr₂ fun r₃ hr₃ => ?_
  have hahead := Reader.ahead_of_page hr₃
  refine (ensures_parsing (readUiNodes_ensures (fun n hn hlarge => ⟨n, hn, hlarge⟩)
    (Reader.amid_of_ahead hahead) (absurd hahead))).bind ?_
  rintro taken r₄ ⟨kept, found, htaken, hfound⟩
  rw [List.nil_append] at htaken
  subst htaken
  refine Attempt.ensures_pure ⟨kept, taken, ?_, ?_⟩
  · exact ⟨hfound.sublist, hfound.essence, hresolves ▸ hfound.fits, hresolves ▸ hfound.complete⟩
  · rw [hnode]

/-- What is written is refused only if some draw node has too many inputs to count. -/
theorem parse_render_recovers (values : ValueStore) (hc : d.graph.Consistent)
    (hfew : d.nodes.length < UInt32.size) :
    (∃ e, parse (d.render values) = .error e ∧ ∃ n ∈ d.nodes, UInt32.size ≤ n.bindings.length) ∨
      ∃ kept found, Recovers d.graph values [] d.nodes kept found ∧ parse (d.render values) = .ok
        { graph := d.graph.rebuild
          root := d.root.filter d.graph.hasNode
          nodes := found } := by
  have hpage := page_ofText_render d values
  unfold parse
  generalize Reader.ofText (d.render values) = r at hpage ⊢
  have hload := load_ensures hc hfew hpage
  unfold Attempt.Ensures at hload
  split at hload
  · next read r' h =>
    obtain ⟨kept, found, hfound, hread⟩ := hload
    exact Or.inr ⟨kept, found, hfound, by rw [h, hread]⟩
  · next e r' h => exact Or.inl ⟨e, by rw [h], hload⟩

theorem parse_render_ensures (ho : d.graph.Ordered)
    (hcount : ∀ n ∈ d.nodes, n.bindings.length < UInt32.size)
    (hfew : d.nodes.length < UInt32.size) :
    ∃ found, Salvages d.nodes found ∧ parse (d.render values) = .ok
      { graph := { d.graph with outbox := [] }
        root := d.root.filter d.graph.hasNode
        nodes := found } := by
  rcases parse_render_recovers values ho.consistent hfew with
    ⟨_, _, n, hn, hlarge⟩ | ⟨kept, found, hfound, hparse⟩
  · exact absurd (hcount n hn) (Nat.not_lt.2 hlarge)
  · rw [ho.consistent.rebuild_eq_iff.2 ho.aligned] at hparse
    exact ⟨found, hfound.salvages hcount, hparse⟩

end Document

end DrawGraph
