import DrawGraph.Proofs.Document.Rounds

/-!
# Counts beyond the lines to come

Put another count in the place of one, and if both are beyond the number of the lines that follow,
the document that is read or the error is the same. Two readers move side by side over the two
texts: up to the line of the count they see the same, and from the count on they stand at the same
words. A draw node's count may be passed over, and then they agree but for words that are not read.
-/

namespace DrawGraph

open Reading Document

/-- The lines to come, each with its number. -/
abbrev Lines := List (Nat × List Word)

/-! ## Two readers side by side -/

/-- The readers are at one line with the same lines before `t` and `t'`, or with the same to come.
What is left of the line is not compared. -/
def Behind (t t' : Lines) (r s : Reader) : Prop :=
  r.line = s.line ∧ ((∃ ls, r.rest = ls ++ t ∧ s.rest = ls ++ t') ∨ r.rest = s.rest)

theorem behind_of_words {t t' : Lines} (line : Nat) (ws ws' : List Word) (rest : Lines) :
    Behind t t' ⟨line, ws, rest⟩ ⟨line, ws', rest⟩ := ⟨rfl, .inr rfl⟩

theorem behind_append {t t' : Lines} (line : Nat) (ws : List Word) (ls : Lines) :
    Behind t t' ⟨line, ws, ls ++ t⟩ ⟨line, ws, ls ++ t'⟩ := ⟨rfl, .inl ⟨ls, rfl, rfl⟩⟩

section Alike

variable {ε α β : Type} {t t' : Lines} {starts : Lines → Prop} {ends : α → Lines → Prop}

/-- Before the lines `ls` and then `t` or `t'`, if `starts` is true of `ls`, the reading fails with
the same error, or it gives the same and leaves the same lines, of which `ends` is true. -/
def Alike (t t' : Lines) (x : Attempt ε Reader α) (starts : Lines → Prop)
    (ends : α → Lines → Prop) : Prop :=
  ∀ line words ls, starts ls →
    (∃ e r s, x.on ⟨line, words, ls ++ t⟩ = (.error e, r) ∧
      x.on ⟨line, words, ls ++ t'⟩ = (.error e, s) ∧ Behind t t' r s) ∨
    ∃ a line' words' ls', ends a ls' ∧
      x.on ⟨line, words, ls ++ t⟩ = (.ok a, ⟨line', words', ls' ++ t⟩) ∧
      x.on ⟨line, words, ls ++ t'⟩ = (.ok a, ⟨line', words', ls' ++ t'⟩)

theorem alike_pure {a : α} (h : ∀ ls, starts ls → ends a ls) :
    Alike t t' (pure a : Attempt ε Reader α) starts ends :=
  fun line words ls hls => .inr ⟨a, line, words, ls, h ls hls, rfl, rfl⟩

theorem Alike.bind {x : Attempt ε Reader α} {f : α → Attempt ε Reader β}
    {ends' : β → Lines → Prop} (hx : Alike t t' x starts ends)
    (hf : ∀ a, Alike t t' (f a) (ends a) ends') : Alike t t' (x >>= f) starts ends' := by
  intro line words ls hls
  rcases hx line words ls hls with ⟨e, r, s, hr, hs, hbehind⟩ | ⟨a, line', words', ls', ha, hr, hs⟩
  · exact .inl ⟨e, r, s, Attempt.on_bind_of_error hr, Attempt.on_bind_of_error hs, hbehind⟩
  · rw [Attempt.on_bind_of_ok hr, Attempt.on_bind_of_ok hs]
    exact hf a line' words' ls' ha

theorem alike_of_and {p : Prop} {x : Attempt ε Reader α} (h : p → Alike t t' x starts ends) :
    Alike t t' x (fun ls => p ∧ starts ls) ends :=
  fun line words ls hls => h hls.1 line words ls hls.2

theorem Alike.mono {x : Attempt ε Reader α} {ends' : α → Lines → Prop}
    (hx : Alike t t' x starts ends) (h : ∀ a ls, ends a ls → ends' a ls) :
    Alike t t' x starts ends' := by
  intro line words ls hls
  refine (hx line words ls hls).imp_right ?_
  rintro ⟨a, line', words', ls', ha, hon⟩
  exact ⟨a, line', words', ls', h a ls' ha, hon⟩

theorem Alike.parsing {x : Reading α} (hx : Alike t t' x starts ends) :
    Alike t t' (parsing x) starts ends := by
  intro line words ls hls
  rw [parsing_on, parsing_on]
  rcases hx line words ls hls with ⟨e, r, s, hr, hs, hbehind⟩ | ⟨a, line', words', ls', ha, hr, hs⟩
  · rw [hr, hs]
    exact .inl ⟨.parse e, r, s, rfl, rfl, hbehind⟩
  · rw [hr, hs]
    exact .inr ⟨a, line', words', ls', ha, rfl, rfl⟩

theorem alike_accept (r : Except GraphError α) :
    Alike t t' (accept r) starts fun _ ls => starts ls := by
  intro line words ls hls
  cases r with
  | ok a => exact .inr ⟨a, line, words, ls, hls, rfl, rfl⟩
  | error e => exact .inl ⟨.graph e, _, _, rfl, rfl, behind_append line words ls⟩

theorem Reading.Inline.alike {x : Reading α} (hx : Inline x) :
    Alike t t' x starts fun _ ls => starts ls := by
  intro line words ls hls
  obtain ⟨result, left, _, hon⟩ := hx words
  rw [hon, hon]
  cases result with
  | ok a => exact .inr ⟨a, line, left, ls, hls, rfl, rfl⟩
  | error f => exact .inl ⟨⟨line, f⟩, _, _, rfl, rfl, behind_append line left ls⟩

/-- A line is read that comes before `t` and `t'`. -/
theorem Reading.OneLine.alike_cons {x : Reading α} (hx : OneLine x) (l : Nat × List Word)
    (ls : Lines) : Alike t t' x (· = l :: ls) fun _ ls' => ls' = ls := by
  obtain ⟨y, rfl, hy, _⟩ := hx
  rintro line words _ rfl
  have hlines : Alike t t' y (· = ls) fun _ ls' => ls' = ls := hy.alike
  exact hlines l.1 l.2 ls rfl

end Alike

/-! ## Up to the count -/

/-- The line starts with this count. -/
def Declares (l : Nat × List Word) (n : Nat) : Prop :=
  ∃ w, l.2.head? = some w ∧ Text.uint64? w = some n

theorem form_on {α : Type} {read : Word → Option α} {w : Word} {a : α} (h : read w = some a)
    (expected : String) (line : Nat) (ws : List Word) (rest : Lines) :
    (form expected read).on ⟨line, w :: ws, rest⟩ = (.ok a, ⟨line, ws, rest⟩) := by
  have hword : word.on ⟨line, w :: ws, rest⟩ = (.ok w, ⟨line, ws, rest⟩) := rfl
  rw [form, Attempt.on_bind_of_ok hword, h]
  rfl

theorem form_on_of_none {α : Type} {read : Word → Option α} {w : Word} (h : read w = none)
    (expected : String) (line : Nat) (ws : List Word) (rest : Lines) :
    (form expected read).on ⟨line, w :: ws, rest⟩ =
      (.error ⟨line, .form expected (String.ofList w)⟩, ⟨line, ws, rest⟩) := by
  have hword : word.on ⟨line, w :: ws, rest⟩ = (.ok w, ⟨line, ws, rest⟩) := rfl
  rw [form, Attempt.on_bind_of_ok hword, h]
  rfl

theorem readCount_on {w : Word} {n : Nat} (hw : Text.uint64? w = some n) (line : Nat)
    (words : List Word) (i : Nat) (more : List Word) (rest : Lines) :
    readCount.on ⟨line, words, (i, w :: more) :: rest⟩ = (.ok n, ⟨i, more, rest⟩) := by
  rw [readCount, Attempt.on_bind_of_ok (nextLine_on_cons line words i _ rest)]
  exact form_on hw _ i more rest

section Sections

variable {t t' : Lines}

theorem alike_readCount {l : Nat × List Word} {n : Nat} (hl : Declares l n) (ls : Lines) :
    Alike t t' readCount (· = l :: ls) fun m ls' => m = n ∧ ls' = ls := by
  obtain ⟨i, ws⟩ := l
  obtain ⟨w, hw, hn⟩ := hl
  obtain ⟨more, rfl⟩ : ∃ more, ws = w :: more := by
    cases ws with
    | nil => cases hw
    | cons v more => exact ⟨more, by rw [Option.some.inj hw]⟩
  rintro line words _ rfl
  exact .inr ⟨n, i, more, ls, ⟨rfl, rfl⟩, readCount_on hn _ _ _ _ _, readCount_on hn _ _ _ _ _⟩

theorem alike_readHeader (l l' : Nat × List Word) (ls : Lines) :
    Alike t t' readHeader (· = l :: l' :: ls) fun _ ls' => ls' = ls := by
  obtain ⟨x, y, hx, hy, heq⟩ := readHeader_eq
  rw [heq]
  exact (hx.alike_cons l (l' :: ls)).bind fun _ => hy.alike_cons l' ls

theorem alike_readRoot (l l' : Nat × List Word) (ls : Lines) :
    Alike t t' readRoot (· = l :: l' :: ls) fun _ ls' => ls' = ls := by
  obtain ⟨x, y, hx, hy, heq⟩ := readRoot_eq
  rw [heq]
  exact (hx.alike_cons l (l' :: ls)).bind fun _ => hy.alike_cons l' ls

theorem alike_readNodes (g : Graph) (nodes ls : Lines) :
    Alike t t' (readNodes g nodes.length) (· = nodes ++ ls) fun _ ls' => ls' = ls := by
  induction nodes generalizing g with
  | nil => exact alike_pure fun _ h => h
  | cons l nodes ih =>
      refine (oneLine_readNode.alike_cons l (nodes ++ ls)).parsing.bind fun p => ?_
      exact (alike_accept _).bind fun g => ih g

theorem alike_readEdges (g : Graph) (edges ls : Lines) :
    Alike t t' (readEdges g edges.length) (· = edges ++ ls) fun _ ls' => ls' = ls := by
  induction edges generalizing g with
  | nil => exact alike_pure fun _ h => h
  | cons l edges ih =>
      refine (oneLine_readEdge.alike_cons l (edges ++ ls)).parsing.bind fun e => ?_
      exact (alike_accept _).bind fun g => ih g

/-! ## The parts of a document -/

def fromUiNodes (g : Graph) (root : Option Id) (count : Nat) : Loading Document := do
  let nodes ← parsing (readUiNodes g [] count)
  return { graph := g, root := root.filter g.hasNode, nodes }

def fromEdges (next : Id) (g : Graph) (count : Nat) : Loading Document := do
  let g ← readEdges g count
  let root ← parsing readRoot
  fromUiNodes (g.reserve next) root (← parsing readCount)

def fromNodes (next : Id) (count : Nat) : Loading Document := do
  let g ← readNodes .empty count
  fromEdges next g (← parsing readCount)

/-- What comes before the count of the edges. -/
def untilEdges : Loading (Id × Graph) := do
  let next ← parsing readHeader
  let g ← readNodes .empty (← parsing readCount)
  return (next, g)

/-- What comes before the count of the UI nodes. -/
def untilUiNodes : Loading (Graph × Option Id) := do
  let (next, g) ← untilEdges
  let g ← readEdges g (← parsing readCount)
  let root ← parsing readRoot
  return (g.reserve next, root)

theorem load_eq_fromNodes :
    load = (do let next ← parsing readHeader; parsing readCount >>= fromNodes next) := by
  simp only [load, readGraph, bind_assoc, pure_bind]
  rfl

theorem load_eq_fromEdges :
    load = (do let p ← untilEdges; parsing readCount >>= fromEdges p.1 p.2) := by
  simp only [load, readGraph, untilEdges, bind_assoc, pure_bind]
  rfl

theorem load_eq_fromUiNodes :
    load = (do let p ← untilUiNodes; parsing readCount >>= fromUiNodes p.1 p.2) := by
  simp only [load, readGraph, untilUiNodes, untilEdges, bind_assoc, pure_bind]
  rfl

theorem alike_untilEdges (h h' : Nat × List Word) {c : Nat × List Word} {nodes : Lines}
    (hc : Declares c nodes.length) (ls : Lines) :
    Alike t t' untilEdges (· = h :: h' :: c :: (nodes ++ ls)) fun _ ls' => ls' = ls := by
  refine (alike_readHeader h h' (c :: (nodes ++ ls))).parsing.bind fun next => ?_
  refine (alike_readCount hc (nodes ++ ls)).parsing.bind fun n => alike_of_and ?_
  rintro rfl
  exact (alike_readNodes .empty nodes ls).bind fun g => alike_pure fun _ h => h

theorem alike_untilUiNodes {h h' c d u r : Nat × List Word} {nodes edges : Lines}
    (hc : Declares c nodes.length) (hd : Declares d edges.length) (ls : Lines) :
    Alike t t' untilUiNodes (· = h :: h' :: c :: (nodes ++ d :: (edges ++ u :: r :: ls)))
      fun _ ls' => ls' = ls := by
  refine (alike_untilEdges h h' hc (d :: (edges ++ u :: r :: ls))).bind fun p => ?_
  refine (alike_readCount hd (edges ++ u :: r :: ls)).parsing.bind fun m => alike_of_and ?_
  rintro rfl
  refine (alike_readEdges p.2 edges (u :: r :: ls)).bind fun g => ?_
  exact (alike_readRoot u r ls).parsing.bind fun root => alike_pure fun _ h => h

end Sections

/-! ## Counts of nodes, edges and UI nodes -/

section Same

variable {r : Reader} {n n' : Nat}

theorem fromUiNodes_on_eq (g : Graph) (root : Option Id) (hn : r.rest.length < n)
    (hn' : r.rest.length < n') : (fromUiNodes g root n).on r = (fromUiNodes g root n').on r := by
  rw [fromUiNodes, fromUiNodes, Attempt.on_bind, Attempt.on_bind, parsing_on, parsing_on,
    (goesInRounds_readUiNodes g []).on_eq r n n' hn hn']

theorem fromEdges_on_eq (next : Id) (g : Graph) (hn : r.rest.length < n)
    (hn' : r.rest.length < n') : (fromEdges next g n).on r = (fromEdges next g n').on r := by
  rw [fromEdges, fromEdges, Attempt.on_bind, Attempt.on_bind,
    (goesInRounds_readEdges g).on_eq r n n' hn hn']

theorem fromNodes_on_eq (next : Id) (hn : r.rest.length < n) (hn' : r.rest.length < n') :
    (fromNodes next n).on r = (fromNodes next n').on r := by
  rw [fromNodes, fromNodes, Attempt.on_bind, Attempt.on_bind,
    (goesInRounds_readNodes .empty).on_eq r n n' hn hn']

end Same

/-- The word is a count of more lines than there are. -/
def Exceeds (w : Word) (ls : Lines) : Prop := ∃ n, Text.uint64? w = some n ∧ ls.length < n

/-- What comes after a count goes the same way whatever the count is. -/
theorem on_recount {α β : Type} {x : Loading α} {f : α → Nat → Loading β} {before after : Lines}
    {i : Nat} {w w' : Word} {more : List Word}
    (hx : Alike ((i, w :: more) :: after) ((i, w' :: more) :: after) x (· = before)
      fun _ ls => ls = [])
    (hf : ∀ a (r : Reader) n n', r.rest.length < n → r.rest.length < n' →
      (f a n).on r = (f a n').on r)
    (hw : Exceeds w after) (hw' : Exceeds w' after) (line : Nat) (words : List Word) :
    ((x >>= fun a => parsing readCount >>= f a).on
        ⟨line, words, before ++ (i, w :: more) :: after⟩).1 =
      ((x >>= fun a => parsing readCount >>= f a).on
        ⟨line, words, before ++ (i, w' :: more) :: after⟩).1 := by
  obtain ⟨n, hn, hlt⟩ := hw
  obtain ⟨n', hn', hlt'⟩ := hw'
  rcases hx line words before rfl with
    ⟨e, r, s, hr, hs, _⟩ | ⟨a, line', words', ls', rfl, hr, hs⟩
  · rw [Attempt.on_bind_of_error hr, Attempt.on_bind_of_error hs]
  · have hcount : (parsing readCount).on ⟨line', words', (i, w :: more) :: after⟩ =
        (.ok n, ⟨i, more, after⟩) := by
      rw [parsing_on, readCount_on hn]
      rfl
    have hcount' : (parsing readCount).on ⟨line', words', (i, w' :: more) :: after⟩ =
        (.ok n', ⟨i, more, after⟩) := by
      rw [parsing_on, readCount_on hn']
      rfl
    rw [Attempt.on_bind_of_ok hr, Attempt.on_bind_of_ok hs]
    refine congrArg Prod.fst ((Attempt.on_bind_of_ok hcount).trans ?_)
    exact (hf a _ n n' hlt hlt').trans (Attempt.on_bind_of_ok hcount').symm

/-- Lines after which the next starts with a count: of the nodes, of the edges or of the UI
nodes. -/
inductive LeadsToCount : Lines → Prop
  | nodes (header next : Nat × List Word) : LeadsToCount [header, next]
  | edges (header next : Nat × List Word) {c : Nat × List Word} {nodes : Lines}
      (hc : Declares c nodes.length) : LeadsToCount (header :: next :: c :: nodes)
  | uiNodes (header next : Nat × List Word) {c d : Nat × List Word} {nodes edges : Lines}
      (hc : Declares c nodes.length) (hd : Declares d edges.length)
      (uiHeader root : Nat × List Word) :
      LeadsToCount (header :: next :: c :: (nodes ++ d :: (edges ++ [uiHeader, root])))

theorem load_on_recount {before after : Lines} {i : Nat} {w w' : Word} {more : List Word}
    (h : LeadsToCount before) (hw : Exceeds w after) (hw' : Exceeds w' after) (line : Nat)
    (words : List Word) :
    (load.on ⟨line, words, before ++ (i, w :: more) :: after⟩).1 =
      (load.on ⟨line, words, before ++ (i, w' :: more) :: after⟩).1 := by
  cases h with
  | nodes header next =>
      rw [load_eq_fromNodes]
      exact on_recount (alike_readHeader header next []).parsing
        (fun next _ _ _ => fromNodes_on_eq next) hw hw' line words
  | @edges header next c nodes hc =>
      rw [load_eq_fromEdges]
      have huntil (t t' : Lines) : Alike t t' untilEdges (· = header :: next :: c :: nodes)
          fun _ ls => ls = [] := by
        simpa only [List.append_nil] using alike_untilEdges header next hc []
      exact on_recount (huntil _ _) (fun p _ _ _ => fromEdges_on_eq p.1 p.2) hw hw' line words
  | uiNodes header next hc hd uiHeader root =>
      rw [load_eq_fromUiNodes]
      exact on_recount (alike_untilUiNodes hc hd [])
        (fun p _ _ _ => fromUiNodes_on_eq p.1 p.2) hw hw' line words

/-! ## Counts of the inputs of draw nodes -/

section Records

variable {α β : Type} {i : Nat} {vs vs' : List Word} {after : Lines}

/-- Lines of which the first starts the record of a UI node. -/
def recordLines (i : Nat) (vs : List Word) (after : Lines) : Lines :=
  (i, uiWord.toList :: vs) :: after

/-- A reading that balks at the line of a record goes the same way, whatever else is in the line. -/
def Unmoved {ε : Type} (i : Nat) (vs vs' : List Word) (after : Lines) (x : Attempt ε Reader α) :
    Prop :=
  Alike (recordLines i vs after) (recordLines i vs' after) x (fun _ => True) fun _ _ => True

theorem Reading.Inline.unmoved {x : Reading α} (hx : Inline x) : Unmoved i vs vs' after x := hx.alike

theorem Reading.OneLine.unmoved {x : Reading α} (hx : OneLine x) : Unmoved i vs vs' after x := by
  intro line words ls _
  cases ls with
  | cons l ls =>
      exact (hx.alike_cons l ls).mono (fun _ _ _ => trivial) line words (l :: ls) rfl
  | nil =>
      obtain ⟨y, rfl, _, fault, hbalks⟩ := hx
      exact .inl ⟨⟨i, fault⟩, _, _, hbalks i vs after, hbalks i vs' after,
        behind_of_words i vs vs' after⟩

theorem unmoved_readNodes (g : Graph) (n : Nat) : Unmoved i vs vs' after (readNodes g n) := by
  induction n generalizing g with
  | zero => exact alike_pure fun _ _ => trivial
  | succ n ih => exact oneLine_readNode.unmoved.parsing.bind fun _ => (alike_accept _).bind ih

theorem unmoved_readEdges (g : Graph) (n : Nat) : Unmoved i vs vs' after (readEdges g n) := by
  induction n generalizing g with
  | zero => exact alike_pure fun _ _ => trivial
  | succ n ih => exact oneLine_readEdge.unmoved.parsing.bind fun _ => (alike_accept _).bind ih

theorem unmoved_readCount : Unmoved i vs vs' after (parsing readCount) :=
  oneLine_readCount.unmoved.parsing

theorem unmoved_untilUiNodes : Unmoved i vs vs' after untilUiNodes := by
  obtain ⟨x, y, hx, hy, hheader⟩ := readHeader_eq
  obtain ⟨x', y', hx', hy', hroot⟩ := readRoot_eq
  have huntil : Unmoved i vs vs' after untilEdges := by
    rw [untilEdges, hheader]
    refine (hx.unmoved.bind fun _ => hy.unmoved).parsing.bind fun next => ?_
    refine unmoved_readCount.bind fun n => (unmoved_readNodes _ n).bind fun g => ?_
    exact alike_pure fun _ _ => trivial
  rw [untilUiNodes, hroot]
  refine huntil.bind fun p => unmoved_readCount.bind fun m => ?_
  refine (unmoved_readEdges p.2 m).bind fun g => ?_
  refine (hx'.unmoved.bind fun _ => hy'.unmoved).parsing.bind fun root => ?_
  exact alike_pure fun _ _ => trivial

theorem unmoved_readBindings (n : Nat) : Unmoved i vs vs' after (UiNode.readBindings n) := by
  induction n with
  | zero => exact alike_pure fun _ _ => trivial
  | succ n ih =>
      refine UiNode.oneLine_readBinding.unmoved.bind fun _ => ih.bind fun _ => ?_
      exact alike_pure fun _ _ => trivial

theorem unmoved_read (kind : UiNodeKind) : Unmoved i vs vs' after (UiNode.read kind) := by
  by_cases hdraw : kind = .draw
  · subst hdraw
    iterate 4 refine (inline_form _ _).unmoved.bind fun _ => ?_
    refine (inline_form _ _).unmoved.bind fun count => ?_
    refine (inline_numbers 3).unmoved.bind fun _ => (unmoved_readBindings count).bind fun _ => ?_
    exact alike_pure fun _ _ => trivial
  · exact (UiNode.inline_read hdraw).unmoved

/-! ### Records that are passed over -/

/-- Both readers get the same out of the reading, and it leaves the one behind as before. -/
def Agree (t t' : Lines) (x : Reading α) (r s : Reader) : Prop :=
  (x.on r).1 = (x.on s).1 ∧ Behind t t' (x.on r).2 (x.on s).2

theorem Alike.agree {t t' : Lines} {x : Reading α} {starts : Lines → Prop}
    {ends : α → Lines → Prop} (hx : Alike t t' x starts ends) {ls : Lines} (hls : starts ls)
    (line : Nat) (words : List Word) :
    Agree t t' x ⟨line, words, ls ++ t⟩ ⟨line, words, ls ++ t'⟩ := by
  rcases hx line words ls hls with ⟨e, r, s, hr, hs, hbehind⟩ | ⟨a, line', words', ls', _, hr, hs⟩
  · rw [Agree, hr, hs]
    exact ⟨rfl, hbehind⟩
  · rw [Agree, hr, hs]
    exact ⟨rfl, behind_append line' words' ls'⟩

theorem Behind.refl (t t' : Lines) (r : Reader) : Behind t t' r r := ⟨rfl, .inr rfl⟩

/-- Both come to the same record. -/
theorem Behind.skipUntil {r s : Reader}
    (h : Behind (recordLines i vs after) (recordLines i vs' after) r s) :
    Behind (recordLines i vs after) (recordLines i vs' after) (r.skipUntil uiWord.toList)
      (s.skipUntil uiWord.toList) := by
  obtain ⟨line, words, rest⟩ := r
  obtain ⟨_, words', rest'⟩ := s
  obtain ⟨rfl, ⟨ls, rfl, rfl⟩ | rfl⟩ := h
  · induction ls generalizing line words words' with
    | nil => exact ⟨rfl, .inl ⟨[], rfl, rfl⟩⟩
    | cons l ls ih =>
        by_cases hl : l.2.head? = some uiWord.toList
        · simp only [Reader.skipUntil, List.cons_append, Reader.skipFrom, if_pos hl]
          exact ⟨rfl, .inl ⟨l :: ls, rfl, rfl⟩⟩
        · simp only [Reader.skipUntil, List.cons_append, Reader.skipFrom, if_neg hl]
          exact ih l.1 [] []
  · cases rest with
    | nil => exact ⟨rfl, .inr rfl⟩
    | cons l rest =>
        by_cases hl : l.2.head? = some uiWord.toList
        · simp only [Reader.skipUntil, Reader.skipFrom, if_pos hl]
          exact ⟨rfl, .inr rfl⟩
        · simp only [Reader.skipUntil, Reader.skipFrom, if_neg hl]
          exact .refl _ _ _

/-- A record that the readers read alike, or pass over. -/
theorem Agree.caught {x : Reading UiNode} {r s : Reader}
    (h : Agree (recordLines i vs after) (recordLines i vs' after) x r s) :
    Agree (recordLines i vs after) (recordLines i vs' after)
      (tryCatch (do return some (← x)) fun _ => passOver) r s := by
  obtain ⟨hresult, hbehind⟩ := h
  rw [Agree, Attempt.on_tryCatch, Attempt.on_tryCatch, Attempt.on_bind, Attempt.on_bind]
  cases hr : x.on r with
  | mk result r' =>
  cases hs : x.on s with
  | mk result' s' =>
  rw [hr, hs] at hresult hbehind
  obtain rfl : result = result' := hresult
  cases result with
  | ok n => exact ⟨rfl, hbehind⟩
  | error e => exact ⟨rfl, hbehind.skipUntil⟩

theorem agree_readTagged (tag : UInt32) (line : Nat) (words : List Word) (ls : Lines) :
    Agree (recordLines i vs after) (recordLines i vs' after) (readTagged tag)
      ⟨line, words, ls ++ recordLines i vs after⟩ ⟨line, words, ls ++ recordLines i vs' after⟩ := by
  unfold readTagged
  split
  · exact ⟨rfl, (behind_append line words ls).skipUntil⟩
  · next kind _ => exact ((unmoved_read kind).agree trivial line words).caught

theorem Agree.of_bind {t t' : Lines} {x : Reading β} {f : β → Reading α} {b : β}
    {r r' s s' : Reader} (hr : x.on r = (.ok b, r')) (hs : x.on s = (.ok b, s'))
    (h : Agree t t' (f b) r' s') : Agree t t' (x >>= f) r s := by
  rw [Agree, Attempt.on_bind_of_ok hr, Attempt.on_bind_of_ok hs]
  exact h

theorem Alike.agree_bind {t t' : Lines} {x : Reading β} {f : β → Reading α}
    {starts : Lines → Prop} {ends : β → Lines → Prop} (hx : Alike t t' x starts ends)
    (hf : ∀ b line words ls, Agree t t' (f b) ⟨line, words, ls ++ t⟩ ⟨line, words, ls ++ t'⟩)
    {ls : Lines} (hls : starts ls) (line : Nat) (words : List Word) :
    Agree t t' (x >>= f) ⟨line, words, ls ++ t⟩ ⟨line, words, ls ++ t'⟩ := by
  rcases hx line words ls hls with ⟨e, r, s, hr, hs, hbehind⟩ | ⟨b, line', words', ls', _, hr, hs⟩
  · rw [Agree, Attempt.on_bind_of_error hr, Attempt.on_bind_of_error hs]
    exact ⟨rfl, hbehind⟩
  · exact .of_bind hr hs (hf b line' words' ls')

/-- A word in which the lines are the same is read alike. -/
theorem agree_form_bind {t t' : Lines} {read : Word → Option β} {f : β → Reading α}
    {line : Nat} {ws ws' : List Word} {rest : Lines}
    (hf : ∀ b, Agree t t' (f b) ⟨line, ws, rest⟩ ⟨line, ws', rest⟩) (expected : String) (w : Word) :
    Agree t t' (form expected read >>= f) ⟨line, w :: ws, rest⟩ ⟨line, w :: ws', rest⟩ := by
  cases h : read w with
  | some b => exact .of_bind (form_on h _ _ _ _) (form_on h _ _ _ _) (hf b)
  | none =>
      rw [Agree, Attempt.on_bind_of_error (form_on_of_none h expected line ws rest),
        Attempt.on_bind_of_error (form_on_of_none h expected line ws' rest)]
      exact ⟨rfl, behind_of_words line ws ws' rest⟩

/-- If the record in question is read alike once its word has been read, then all are. -/
theorem agree_readUiNode
    (hrecord : Agree (recordLines i vs after) (recordLines i vs' after)
      (unsigned >>= readTagged) ⟨i, vs, after⟩ ⟨i, vs', after⟩) {r s : Reader}
    (h : Behind (recordLines i vs after) (recordLines i vs' after) r s) :
    Agree (recordLines i vs after) (recordLines i vs' after) readUiNode r s := by
  obtain ⟨line, words, rest⟩ := r
  obtain ⟨_, words', rest'⟩ := s
  rw [readUiNode_eq]
  obtain ⟨rfl, ⟨ls, rfl, rfl⟩ | rfl⟩ := h
  · cases ls with
    | nil =>
        refine .of_bind (nextLine_on_cons line words i _ after)
          (nextLine_on_cons line words' i _ after) ?_
        have hword (vs : List Word) : (keyword uiWord).on ⟨i, uiWord.toList :: vs, after⟩ =
            (.ok (), ⟨i, vs, after⟩) := rfl
        exact .of_bind (hword vs) (hword vs') hrecord
    | cons l ls =>
        refine .of_bind (nextLine_on_cons line words l.1 l.2 _)
          (nextLine_on_cons line words' l.1 l.2 _) ?_
        refine (inline_keyword uiWord).unmoved.agree_bind (fun _ line words ls => ?_) trivial l.1 l.2
        exact (inline_form _ _).unmoved.agree_bind agree_readTagged trivial line words
  · cases rest with
    | nil =>
        rw [Agree, Attempt.on_bind_of_error (nextLine_on_nil line words),
          Attempt.on_bind_of_error (nextLine_on_nil line words')]
        exact ⟨rfl, behind_of_words line words words' []⟩
    | cons l rest =>
        exact .of_bind (nextLine_on_cons line words l.1 l.2 rest)
          (nextLine_on_cons line words' l.1 l.2 rest) ⟨rfl, .refl _ _ _⟩

theorem readUiNodes_on_fst
    (hrecord : Agree (recordLines i vs after) (recordLines i vs' after)
      (unsigned >>= readTagged) ⟨i, vs, after⟩ ⟨i, vs', after⟩) (g : Graph) (nodes : List UiNode)
    (n : Nat) {r s : Reader}
    (h : Behind (recordLines i vs after) (recordLines i vs' after) r s) :
    ((readUiNodes g nodes n).on r).1 = ((readUiNodes g nodes n).on s).1 := by
  induction n generalizing nodes r s with
  | zero => rfl
  | succ n ih =>
      have hend : r.atEnd = s.atEnd := by
        obtain ⟨_, ⟨ls, hr, hs⟩ | hrest⟩ := h
        · rw [Reader.atEnd, Reader.atEnd, hr, hs]
          cases ls <;> rfl
        · rw [Reader.atEnd, Reader.atEnd, hrest]
      rw [readUiNodes, Attempt.on_bind_of_ok (Attempt.on_get r),
        Attempt.on_bind_of_ok (Attempt.on_get s), hend]
      split
      · rfl
      · obtain ⟨hfound, hbehind⟩ := agree_readUiNode hrecord h
        rw [Attempt.on_bind, Attempt.on_bind]
        cases hr : readUiNode.on r with
        | mk result r' =>
        cases hs : readUiNode.on s with
        | mk result' s' =>
        rw [hr, hs] at hfound hbehind
        obtain rfl : result = result' := hfound
        cases result with
        | error e => rfl
        | ok found =>
            cases found with
            | none => exact ih nodes hbehind
            | some node =>
                dsimp only
                split
                · exact ih _ hbehind
                · exact ih _ hbehind

theorem load_on_fst_of_agree
    (hrecord : Agree (recordLines i vs after) (recordLines i vs' after)
      (unsigned >>= readTagged) ⟨i, vs, after⟩ ⟨i, vs', after⟩) (before : Lines) (line : Nat)
    (words : List Word) :
    (load.on ⟨line, words, before ++ recordLines i vs after⟩).1 =
      (load.on ⟨line, words, before ++ recordLines i vs' after⟩).1 := by
  rw [load_eq_fromUiNodes]
  rcases unmoved_untilUiNodes line words before trivial with
    ⟨e, r, s, hr, hs, _⟩ | ⟨p, line', words', ls, _, hr, hs⟩
  · rw [Attempt.on_bind_of_error hr, Attempt.on_bind_of_error hs]
  rw [Attempt.on_bind_of_ok hr, Attempt.on_bind_of_ok hs]
  rcases unmoved_readCount line' words' ls trivial with
    ⟨e, r, s, hr, hs, _⟩ | ⟨n, line', words', ls, _, hr, hs⟩
  · rw [Attempt.on_bind_of_error hr, Attempt.on_bind_of_error hs]
  rw [Attempt.on_bind_of_ok hr, Attempt.on_bind_of_ok hs, fromUiNodes, Attempt.on_bind,
    Attempt.on_bind, parsing_on, parsing_on]
  have hfound := readUiNodes_on_fst hrecord p.1 [] n (behind_append line' words' ls)
  cases hr : (readUiNodes p.1 [] n).on ⟨line', words', ls ++ recordLines i vs after⟩ with
  | mk result r =>
  cases hs : (readUiNodes p.1 [] n).on ⟨line', words', ls ++ recordLines i vs' after⟩ with
  | mk result' s =>
  rw [hr, hs] at hfound
  obtain rfl : result = result' := hfound
  cases result <;> rfl

/-- What follows the count in the record of a draw node. -/
def readDrawFrom (id model shader output : Id) (count : Nat) : Reading UiNode := do
  let color ← numbers 3
  let bindings ← UiNode.readBindings count
  return .draw { id, shader, model, output, color, bindings }

theorem readDrawFrom_on_eq (id model shader output : Id) {r : Reader} {n n' : Nat}
    (hn : r.rest.length < n) (hn' : r.rest.length < n') :
    (readDrawFrom id model shader output n).on r =
      (readDrawFrom id model shader output n').on r := by
  have hstay := (inline_numbers 3).advances r
  rw [readDrawFrom, readDrawFrom, Attempt.on_bind, Attempt.on_bind]
  cases h : (numbers 3).on r with
  | mk result t =>
  rw [h] at hstay
  cases result with
  | error e => rfl
  | ok color =>
      have hle := hstay.length_le
      dsimp only at hle ⊢
      rw [Attempt.on_bind, Attempt.on_bind,
        UiNode.goesInRounds_readBindings.on_eq t n n' (by omega) (by omega)]

/-- The record of a draw node is read alike, whatever count of inputs beyond the lines it has. -/
theorem agree_drawRecord {tag id model shader output w w' : Word} {more : List Word}
    (htag : (Text.uint32? tag).bind (fun u => UiNodeKind.ofTag? u.toNat) = some .draw)
    (hw : Exceeds w after) (hw' : Exceeds w' after) :
    Agree (recordLines i vs after) (recordLines i vs' after) (unsigned >>= readTagged)
      ⟨i, tag :: id :: model :: shader :: output :: w :: more, after⟩
      ⟨i, tag :: id :: model :: shader :: output :: w' :: more, after⟩ := by
  obtain ⟨u, hu, hdraw⟩ := Option.bind_eq_some_iff.1 htag
  obtain ⟨n, hn, hlt⟩ := hw
  obtain ⟨n', hn', hlt'⟩ := hw'
  refine .of_bind (form_on hu _ _ _ _) (form_on hu _ _ _ _) ?_
  rw [readTagged, hdraw]
  apply Agree.caught
  refine agree_form_bind (fun id => ?_) _ _
  refine agree_form_bind (fun model => ?_) _ _
  refine agree_form_bind (fun shader => ?_) _ _
  refine agree_form_bind (fun output => ?_) _ _
  have hon {w : Word} {n : Nat} (hn : Text.uint64? w = some n) :
      (count >>= readDrawFrom id model shader output).on ⟨i, w :: more, after⟩ =
        (readDrawFrom id model shader output n).on ⟨i, more, after⟩ :=
    Attempt.on_bind_of_ok (form_on hn _ i more after)
  have heq : (readDrawFrom id model shader output n).on ⟨i, more, after⟩ =
      (readDrawFrom id model shader output n').on ⟨i, more, after⟩ :=
    readDrawFrom_on_eq id model shader output hlt hlt'
  have hsame := (hon hn).trans (heq.trans (hon hn').symm)
  exact ⟨congrArg Prod.fst hsame, congrArg Prod.snd hsame ▸ .refl _ _ _⟩

end Records

/-! ## One count for another -/

/-- In the place of a count that is beyond the number of the lines after it stands another that is,
too: a count of nodes, of edges or of UI nodes, or a count of inputs in the record of a draw
node. -/
inductive Redeclares : Lines → Lines → Prop
  | part {before after : Lines} {w w' : Word} (h : LeadsToCount before) (hw : Exceeds w after)
      (hw' : Exceeds w' after) (i : Nat) (more : List Word) :
      Redeclares (before ++ (i, w :: more) :: after) (before ++ (i, w' :: more) :: after)
  | inputs {after : Lines} {tag w w' : Word}
      (htag : (Text.uint32? tag).bind (fun u => UiNodeKind.ofTag? u.toNat) = some .draw)
      (hw : Exceeds w after) (hw' : Exceeds w' after) (before : Lines) (i : Nat)
      (id model shader output : Word) (more : List Word) :
      Redeclares
        (before ++ (i, uiWord.toList :: tag :: id :: model :: shader :: output :: w :: more) ::
          after)
        (before ++ (i, uiWord.toList :: tag :: id :: model :: shader :: output :: w' :: more) ::
          after)

theorem load_on_redeclared {ls ls' : Lines} (h : Redeclares ls ls') (line : Nat)
    (words : List Word) : (load.on ⟨line, words, ls⟩).1 = (load.on ⟨line, words, ls'⟩).1 := by
  cases h with
  | part h hw hw' i more => exact load_on_recount h hw hw' line words
  | inputs htag hw hw' before i id model shader output more =>
      exact load_on_fst_of_agree (agree_drawRecord htag hw hw') before line words

/-- However great the counts in a document are, what is read goes in rounds that take lines, and the
document or the error does not depend on what a count is that is beyond the lines after it. -/
theorem counts_bounded_by_lines :
    ((∀ g, GoesInRounds (readNodes g) nodeRound g) ∧
      (∀ g, GoesInRounds (readEdges g) edgeRound g) ∧
      (∀ g nodes, GoesInRounds (readUiNodes g nodes) (uiRound g) nodes) ∧
      GoesInRounds UiNode.readBindings UiNode.bindingRound []) ∧
    ∀ text text', Redeclares (Reader.ofText text).rest (Reader.ofText text').rest →
      parse text = parse text' :=
  ⟨⟨goesInRounds_readNodes, goesInRounds_readEdges, goesInRounds_readUiNodes,
    UiNode.goesInRounds_readBindings⟩, fun _ _ h => load_on_redeclared h 0 []⟩

/-- The greatest count there is does what a count of two does: of the nodes, of which there is one,
and of the inputs in a record that is passed over, as only one line is left for them. -/
theorem counts_bounded_by_lines_greatest :
    let nodes (count : String) := "#graph\n0\n" ++ count ++ "\n\nn 1 0 0 0\n"
    let inputs (count : String) := "#graph\n3\n0\n0\n#ui_nodes\n-1\n1\n\nuin 15 0 1 1 2 " ++
      count ++ " 0.5 0.5 0.5\n7 tint float3\n"
    let greatest := "18446744073709551615"
    Redeclares (Reader.ofText (nodes greatest)).rest (Reader.ofText (nodes "2")).rest ∧
      parse (nodes greatest) = parse (nodes "2") ∧
      (match parse (nodes "2") with
        | .error e => some e
        | .ok _ => none) = some (.parse ⟨5, .endOfDocument⟩) ∧
      Redeclares (Reader.ofText (inputs greatest)).rest (Reader.ofText (inputs "2")).rest ∧
      parse (inputs greatest) = parse (inputs "2") ∧
      (parse (inputs "2")).toOption.map (·.nodes) = some [] := by
  intro nodes inputs greatest
  have hexceeds (ls : Lines) (hls : ls.length ≤ 1) :
      Exceeds greatest.toList ls ∧ Exceeds "2".toList ls :=
    ⟨⟨18446744073709551615, by decide +kernel, by omega⟩, ⟨2, by decide, by omega⟩⟩
  have hnodes : Redeclares (Reader.ofText (nodes greatest)).rest
      (Reader.ofText (nodes "2")).rest := by
    have hlines : ∀ count ∈ [greatest, "2"], (Reader.ofText (nodes count)).rest =
        [(1, ["#graph".toList]), (2, ["0".toList])] ++ (3, [count.toList]) ::
          [(5, ["n", "1", "0", "0", "0"].map String.toList)] := by
      decide +kernel
    rw [hlines greatest (by simp), hlines "2" (by simp)]
    obtain ⟨hmany, hfew⟩ := hexceeds
      [(5, ["n", "1", "0", "0", "0"].map String.toList)] (by decide)
    exact .part (.nodes _ _) hmany hfew 3 []
  have hinputs : Redeclares (Reader.ofText (inputs greatest)).rest
      (Reader.ofText (inputs "2")).rest := by
    have hlines : ∀ count ∈ [greatest, "2"], (Reader.ofText (inputs count)).rest =
        [(1, ["#graph".toList]), (2, ["3".toList]), (3, ["0".toList]), (4, ["0".toList]),
          (5, ["#ui_nodes".toList]), (6, ["-1".toList]), (7, ["1".toList])] ++
        (9, uiWord.toList :: "15".toList :: "0".toList :: "1".toList :: "1".toList :: "2".toList ::
          count.toList :: ["0.5", "0.5", "0.5"].map String.toList) ::
        [(10, ["7", "tint", "float3"].map String.toList)] := by
      decide +kernel
    rw [hlines greatest (by simp), hlines "2" (by simp)]
    obtain ⟨hmany, hfew⟩ := hexceeds
      [(10, ["7", "tint", "float3"].map String.toList)] (by decide)
    exact .inputs (by decide +kernel) hmany hfew _ 9 _ _ _ _ _
  exact ⟨hnodes, counts_bounded_by_lines.2 _ _ hnodes, by decide +kernel, hinputs,
    counts_bounded_by_lines.2 _ _ hinputs, by decide +kernel⟩

end DrawGraph
