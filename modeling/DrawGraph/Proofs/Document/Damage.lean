import DrawGraph.Proofs.Document.Followed

/-!
# What a damaged record costs

A record that cannot be read, or whose ids do not fit the graph, is left out. Mostly that costs
nothing else. But a draw node with fewer lines than it counts takes the first line of the next
record for its own, and that record is lost; the lines left over by a record that was read are taken
for the start of a record, and the document is refused; and so it is for a record without a tag.
-/

namespace DrawGraph

open Reading UiNode

/-- A reader of some lines. -/
def Reader.ofLines (ls : List (List Word)) : Reader := { rest := ls.map (0, ·) }

theorem Reader.ahead_ofLines (ls : List (List Word)) : (Reader.ofLines ls).ahead = ls := by
  rw [Reader.ahead, Reader.ofLines, List.map_map]
  exact List.map_id _

namespace Document

variable {g : Graph}

/-! ## The lines before the records -/

theorem extends_accept (r : Except GraphError Graph) : Extends (accept r) := by
  cases r with
  | ok g => exact extends_pure g
  | error e => exact fun _ _ _ _ _ _ h => nomatch h

theorem extends_form {α : Type} (expected : String) (read : Word → Option α) :
    Extends (form expected read) :=
  Confined.extends fun _ => (inline_form expected read).confined

theorem extends_keyword (expected : String) : Extends (keyword expected) :=
  Confined.extends fun _ => (inline_keyword expected).confined

theorem extends_tagged {α : Type} (table : String) (ofTag? : Nat → Option α) :
    Extends (tagged table ofTag?) :=
  Confined.extends fun _ => (inline_tagged table ofTag?).confined

theorem extends_readNode : Extends readNode := by
  refine extends_nextLine.bind fun _ => ?_
  refine (extends_keyword _).bind fun _ => ?_
  refine (extends_form _ _).bind fun _ => ?_
  iterate 2 refine (extends_tagged _ _).bind fun _ => ?_
  exact (extends_form _ _).bind fun _ => extends_pure _

theorem extends_readEdge : Extends readEdge := by
  refine extends_nextLine.bind fun _ => ?_
  refine (extends_keyword _).bind fun _ => ?_
  iterate 3 refine (extends_form _ _).bind fun _ => ?_
  exact (extends_tagged _ _).bind fun _ => extends_pure _

theorem extends_readNodes (g : Graph) (k : Nat) : Extends (readNodes g k) := by
  induction k generalizing g with
  | zero => exact extends_pure g
  | succ k ih =>
      exact extends_readNode.parsing.bind fun _ => (extends_accept _).bind ih

theorem extends_readEdges (g : Graph) (k : Nat) : Extends (readEdges g k) := by
  induction k generalizing g with
  | zero => exact extends_pure g
  | succ k ih =>
      exact extends_readEdge.parsing.bind fun _ => (extends_accept _).bind ih

theorem extends_readGraph : Extends readGraph := by
  have hheader : Extends readHeader :=
    extends_nextLine.bind fun _ => (extends_keyword _).bind fun _ =>
      extends_nextLine.bind fun _ => extends_form _ _
  have hcount : Extends readCount := extends_nextLine.bind fun _ => extends_form _ _
  refine hheader.parsing.bind fun _ => ?_
  refine hcount.parsing.bind fun k => ?_
  refine (extends_readNodes _ k).bind fun g => ?_
  refine hcount.parsing.bind fun k => ?_
  exact (extends_readEdges g k).bind fun _ => extends_pure _

theorem extends_readRoot : Extends readRoot :=
  extends_nextLine.bind fun _ => (extends_keyword _).bind fun _ =>
    extends_nextLine.bind fun _ => Confined.extends fun _ => inline_optionalId.confined

/-- The lines hold a graph and a root, and no more. -/
def Opens (head : List (List Word)) (g : Graph) (root : Option Id) : Prop :=
  ∃ r r', readGraph.on (Reader.ofLines head) = (.ok g, r) ∧ readRoot.on r = (.ok root, r') ∧
    r'.ahead = []

/-! ## Records by themselves -/

/-- A line that starts a record, and lines that follow it and start none. -/
structure Entry where
  /-- The words after the one that starts the record. -/
  first : List Word
  more : List (List Word)
  apart : ∀ ws ∈ more, ws.head? ≠ some uiWord.toList

/-- What comes of a record. -/
inductive Fate
  | untagged
  | unknown
  /-- It cannot be read, perhaps for want of lines. -/
  | broken (short : Bool)
  /-- It is read, and some lines are left over. -/
  | read (n : UiNode) (left : List (List Word))
deriving DecidableEq

namespace Entry

variable {e : Entry} {es : List Entry}

def lines (e : Entry) : List (List Word) := (uiWord.toList :: e.first) :: e.more

/-- A reader that has come to the tag and sees nothing beyond the record. -/
def reader (e : Entry) : Reader := { Reader.ofLines e.more with words := e.first }

def fate (e : Entry) : Fate :=
  match unsigned.on e.reader with
  | (.error _, _) => .untagged
  | (.ok tag, r) =>
    match UiNodeKind.ofTag? tag.toNat with
    | none => .unknown
    | some kind =>
      match (UiNode.read kind).on r with
      | (.ok n, r') => .read n r'.ahead
      | (.error err, _) => .broken (err.fault = .endOfDocument)

def node? (e : Entry) : Option UiNode :=
  match e.fate with
  | .read n _ => some n
  | _ => none

/-- A record that is read to its end and fits the graph. -/
def sound (g : Graph) (e : Entry) : Bool :=
  match e.fate with
  | .read n left => left.isEmpty && resolves g n
  | _ => false

/-- A record that cannot be read or does not fit the graph. -/
def damaged (g : Graph) (e : Entry) : Bool := !e.node?.any (resolves g)

/-- A record that costs no other, wherever it stands. -/
def contained (e : Entry) : Bool :=
  match e.fate with
  | .untagged => false
  | .unknown => true
  | .broken short => !short
  | .read _ left => left.isEmpty

/-- The lines that are still to come after the record was read or passed over. -/
def leaves (e : Entry) (es : List Entry) : List (List Word) :=
  match e.fate with
  | .broken true => es.tail.flatMap lines
  | .read _ left => left ++ es.flatMap lines
  | _ => es.flatMap lines

theorem head?_lines (es : List Entry) :
    ∀ ws ∈ (es.flatMap lines).head?, ws.head? = some uiWord.toList := by
  cases es with
  | nil => simp
  | cons e es =>
      rintro ws ⟨⟩
      rfl

/-- Among the lines of a record the next record is found. -/
theorem ahead_skipUntil {left : List (List Word)} (hleft : left <:+ e.more) {s : Reader}
    (hs : s.ahead = left ++ es.flatMap lines) :
    (s.skipUntil uiWord.toList).ahead = es.flatMap lines := by
  have hamid : s.Amid (es.flatMap lines) :=
    ⟨left, hs, fun ws hws => e.apart ws (hleft.subset hws)⟩
  exact hamid.ahead_skipUntil (head?_lines es)

theorem followed_reader {ls : List (List Word)} {s : Reader}
    (hs : s.page = (e.first, e.more ++ ls)) : e.reader.Followed ls s := by
  obtain ⟨hwords, hahead⟩ := Prod.mk.inj hs
  refine ⟨hwords, ?_⟩
  exact hahead.trans (congrArg (· ++ ls) (Reader.ahead_ofLines e.more).symm)

/-- Among other records, what comes of a record is what comes of it by itself; only, for want of
lines it takes one of the next record. -/
theorem readUiNode_ensures {s : Reader} (hs : s.ahead = (e :: es).flatMap lines) :
    readUiNode.Ensures s (fun _ _ => e.fate = .untagged) fun found s' =>
      e.fate ≠ .untagged ∧ found = e.node? ∧ s'.ahead = e.leaves es := by
  have hpage : s.page = (s.words, (uiWord.toList :: e.first) :: (e.more ++ es.flatMap lines)) :=
    Prod.ext rfl hs
  refine (reads_nextLine _ _).ensures_bind hpage fun s₁ hs₁ => ?_
  refine (reads_keyword (by decide)).ensures_bind hs₁ fun s₂ hs₂ => ?_
  have hreader : e.reader.ahead = e.more := Reader.ahead_ofLines e.more
  have hunsigned := (inline_form "an unsigned integer" Text.uint32?).confined e.reader s₂
    (followed_reader hs₂)
  cases htag : unsigned.on e.reader with
  | mk result r₃ =>
  cases result with
  | error err =>
      obtain ⟨_, _, s', hfail, _⟩ := hunsigned.of_error htag
      refine Attempt.ensures_of_error (Attempt.on_bind_of_error hfail) ?_
      rw [fate, htag]
  | ok tag =>
      obtain ⟨hmore, s₃, hread, hs₃⟩ := hunsigned.of_ok htag
      rw [hreader] at hmore
      refine Attempt.ensures_bind_of_ok hread ?_
      cases hkind : UiNodeKind.ofTag? tag.toNat with
      | none =>
          have hfate : e.fate = .unknown := by
            simp only [fate, htag, hkind]
          refine Attempt.ensures_modify_bind (Attempt.ensures_pure ?_)
          rw [node?, leaves, hfate]
          exact ⟨nofun, rfl, ahead_skipUntil hmore hs₃.ahead⟩
      | some kind =>
          have hconfined := confined_read (head?_lines es) kind r₃ s₃ hs₃
          cases hread' : (UiNode.read kind).on r₃ with
          | mk result r₄ =>
          cases result with
          | ok n =>
              have hfate : e.fate = .read n r₄.ahead := by
                simp only [fate, htag, hkind, hread']
              obtain ⟨-, s₄, hs₄, hahead⟩ := hconfined.of_ok hread'
              refine Attempt.ensures_bind_of_ok (t := s₄) (a := .error (some n)) ?_ ?_
              · rw [Attempt.on_tryCatch, Attempt.on_bind_of_ok hs₄]
                rfl
              · refine Attempt.ensures_pure ?_
                rw [node?, leaves, hfate]
                exact ⟨nofun, rfl, hahead.ahead⟩
          | error err =>
              have hfate : e.fate = .broken (err.fault = .endOfDocument) := by
                simp only [fate, htag, hkind, hread']
              obtain ⟨hleft, _, s₄, hs₄, hahead⟩ := hconfined.of_error hread'
              refine Attempt.ensures_bind_of_ok (t := s₄.skipUntil uiWord.toList)
                (a := .error none) ?_ ?_
              · rw [Attempt.on_tryCatch, Attempt.on_bind_of_error hs₄]
                rfl
              · refine Attempt.ensures_pure ?_
                rw [node?, leaves, hfate]
                refine ⟨nofun, rfl, ?_⟩
                by_cases hshort : err.fault = .endOfDocument
                · rw [if_pos hshort] at hahead
                  simp only [hshort, decide_true]
                  -- what is passed over are the further lines of the record that lost its first
                  cases es with
                  | nil => exact ahead_skipUntil (e := e) List.nil_suffix hahead
                  | cons e' es => exact ahead_skipUntil (e := e') List.suffix_rfl hahead
                · rw [if_neg hshort] at hahead
                  simp only [hshort, decide_false]
                  exact ahead_skipUntil (hleft.trans hmore) hahead

/-- The lines that a record leaves over are its own. -/
theorem left_suffix {n : UiNode} {left : List (List Word)} (h : e.fate = .read n left) :
    left <:+ e.more := by
  have hself (r : Reader) : r.Followed [] r := ⟨rfl, (List.append_nil _).symm⟩
  unfold fate at h
  split at h
  · cases h
  next tag r htag =>
  split at h
  · cases h
  next kind _ =>
  split at h
  · next n' r' hread =>
    cases h
    have hread := (confined_read (by simp) kind r r (hself r)).of_ok hread
    have htag := ((inline_form _ _).confined e.reader e.reader (hself _)).of_ok htag
    exact hread.1.trans (htag.1.trans (Reader.ahead_ofLines e.more ▸ List.suffix_rfl))
  · cases h

/-- Lines left over are taken for a record that does not start as one. -/
theorem readUiNode_astray {left ls : List (List Word)} (hne : left ≠ [])
    (hleft : left <:+ e.more) {s : Reader} (hs : s.ahead = left ++ ls) :
    readUiNode.Ensures s (fun _ _ => True) fun _ _ => False := by
  refine readUiNode_amid ⟨left, hs, fun ws hws => e.apart ws (hleft.subset hws)⟩ fun h => hne ?_
  rw [hs] at h
  exact List.append_left_eq_self.1 h

end Entry

/-! ## What is read of records -/

/-- A UI node is taken in if it fits the graph and its identity is not taken. -/
def takeIn (g : Graph) (before : List UiNode) (n : UiNode) : List UiNode :=
  if resolves g n && !before.any (·.id == n.id) then before ++ [n] else before

/-- The records that come to be read, of those that are left when `k` are still expected; or none
if the document is refused. -/
def salvage (g : Graph) : Nat → List Entry → Option (List Entry)
  | 0, _ => some []
  | _ + 1, [] => some []
  | k + 1, e :: es =>
    match e.fate with
    | .untagged => none
    | .unknown => salvage g k es
    | .broken short => salvage g k (if short then es.tail else es)
    | .read n left =>
      if left = [] then
        (salvage g k es).map fun kept => if resolves g n then e :: kept else kept
      else if k = 0 then some (if resolves g n then [e] else [])
      else none

/-- The UI nodes of records, as they are taken in. -/
def gather (g : Graph) (es : List Entry) (before : List UiNode) : List UiNode :=
  (es.filterMap Entry.node?).foldl (takeIn g) before

variable {e : Entry} {es kept : List Entry} {before : List UiNode} {k : Nat} {r : Reader}

/-- A record whose UI node does not fit the graph counts for nothing. -/
theorem gather_take {n : UiNode} (hn : e.node? = some n) (es : List Entry)
    (before : List UiNode) :
    gather g (if resolves g n then e :: es else es) before = gather g es (takeIn g before n) := by
  split
  · rw [gather, List.filterMap_cons_some hn, List.foldl_cons]
    rfl
  · next hresolves =>
    rw [takeIn, if_neg]
    simp [hresolves]

theorem readUiNodes_ensures_salvage (hk : es.length ≤ k) (hr : r.ahead = es.flatMap Entry.lines) :
    (readUiNodes g before k).Ensures r (fun _ _ => salvage g k es = none) fun nodes _ =>
      ∃ kept, salvage g k es = some kept ∧ nodes = gather g kept before := by
  induction k generalizing es before r with
  | zero =>
      exact Attempt.ensures_pure ⟨[], rfl, rfl⟩
  | succ k ih =>
      refine Attempt.ensures_get_bind ?_
      cases es with
      | nil =>
          have hend : r.atEnd = true := by
            rw [Reader.atEnd, List.isEmpty_iff]
            exact List.map_eq_nil_iff.1 hr
          rw [hend]
          exact Attempt.ensures_pure ⟨[], rfl, rfl⟩
      | cons e es =>
          have hmore : r.atEnd = false := Reader.atEnd_eq_false hr
          have hes : es.length ≤ k := Nat.le_of_succ_le_succ hk
          rw [hmore]
          refine ((Entry.readUiNode_ensures hr).mono_error fun _ _ hfate => ?_).bind ?_
          · rw [salvage, hfate]
          rintro _ r' ⟨htagged, rfl, hr'⟩
          cases hfate : e.fate with
          | untagged => exact absurd hfate htagged
          | unknown =>
              rw [Entry.leaves, hfate] at hr'
              rw [Entry.node?, salvage, hfate]
              exact ih hes hr'
          | broken short =>
              rw [Entry.leaves, hfate] at hr'
              rw [Entry.node?, salvage, hfate]
              cases short with
              | false => exact ih hes hr'
              | true => exact ih (es.length_tail ▸ (Nat.sub_le _ _).trans hes) hr'
          | read n left =>
              have hnode : e.node? = some n := by rw [Entry.node?, hfate]
              have htaken : (if resolves g n && !before.any (·.id == n.id) then
                  readUiNodes g (before ++ [n]) k else readUiNodes g before k) =
                  readUiNodes g (takeIn g before n) k := by
                rw [takeIn]
                split <;> rfl
              rw [Entry.leaves, hfate] at hr'
              rw [hnode, salvage, hfate]
              dsimp only
              rw [htaken]
              by_cases hleft : left = []
              · subst hleft
                refine (ih hes hr').mono (fun _ _ hnone => ?_) ?_
                · rw [if_pos rfl, hnone]
                  rfl
                · rintro _ _ ⟨kept, hkept, rfl⟩
                  rw [if_pos rfl, hkept]
                  exact ⟨_, rfl, (gather_take hnode kept before).symm⟩
              · rw [if_neg hleft]
                cases k with
                | zero =>
                    refine Attempt.ensures_pure ⟨_, rfl, ?_⟩
                    exact (gather_take hnode [] before).symm
                | succ k =>
                    have hmore : r'.atEnd = false := by
                      obtain ⟨ws, left, rfl⟩ := List.exists_cons_of_ne_nil hleft
                      exact Reader.atEnd_eq_false hr'
                    refine Attempt.ensures_get_bind ?_
                    rw [hmore]
                    have hastray := Entry.readUiNode_astray hleft (Entry.left_suffix hfate) hr'
                    refine (hastray.mono_error fun _ _ _ => ?_).bind fun _ _ h => h.elim
                    rw [if_neg k.succ_ne_zero]

/-- Reading the records that were salvaged, all are salvaged. -/
theorem salvage_salvage (h : salvage g k es = some kept) (hk : es.length ≤ k) :
    salvage g kept.length kept = some kept ∧ kept.Sublist es := by
  induction k generalizing es kept with
  | zero =>
      cases h
      exact ⟨rfl, List.nil_sublist es⟩
  | succ k ih =>
      cases es with
      | nil =>
          cases h
          exact ⟨rfl, .refl _⟩
      | cons e es =>
          have hes : es.length ≤ k := Nat.le_of_succ_le_succ hk
          cases hfate : e.fate with
          | untagged =>
              rw [salvage, hfate] at h
              cases h
          | unknown =>
              rw [salvage, hfate] at h
              obtain ⟨hkept, hsub⟩ := ih h hes
              exact ⟨hkept, hsub.cons e⟩
          | broken short =>
              rw [salvage, hfate] at h
              cases short with
              | false =>
                  obtain ⟨hkept, hsub⟩ := ih h hes
                  exact ⟨hkept, hsub.cons e⟩
              | true =>
                  obtain ⟨hkept, hsub⟩ := ih h (es.length_tail ▸ (Nat.sub_le _ _).trans hes)
                  exact ⟨hkept, (hsub.trans (List.tail_sublist es)).cons e⟩
          | read n left =>
              rw [salvage, hfate] at h
              dsimp only at h
              split at h
              · next hleft =>
                obtain ⟨kept', hkept', rfl⟩ := Option.map_eq_some_iff.1 h
                obtain ⟨hkept, hsub⟩ := ih hkept' hes
                split
                · next hn =>
                  refine ⟨?_, hsub.cons_cons e⟩
                  rw [List.length_cons, salvage, hfate]
                  simp [hleft, hkept, hn]
                · exact ⟨hkept, hsub.cons e⟩
              split at h
              · next hleft _ =>
                cases h
                split
                · next hn =>
                  refine ⟨?_, List.singleton_sublist.2 List.mem_cons_self⟩
                  rw [List.length_singleton, salvage, hfate]
                  simp [hleft, hn]
                · exact ⟨rfl, List.nil_sublist _⟩
              · cases h

/-- Where no damage reaches beyond its record, just the sound records are salvaged. -/
theorem salvage_of_contained (hall : ∀ e ∈ es, e.sound g ∨ e.damaged g)
    (htagged : ∀ e ∈ es, e.fate ≠ .untagged) (hcontained : ∀ e ∈ es.dropLast, e.contained) :
    salvage g es.length es = some (es.filter (Entry.sound g)) := by
  induction es with
  | nil => rfl
  | cons e es ih =>
      obtain ⟨he, hall⟩ := List.forall_mem_cons.1 hall
      obtain ⟨htag, htagged⟩ := List.forall_mem_cons.1 htagged
      have hrest : salvage g es.length es = some (es.filter (Entry.sound g)) := by
        refine ih hall htagged fun e' he' => hcontained e' ?_
        cases es with
        | nil => cases he'
        | cons e'' es => exact List.mem_cons_of_mem e he'
      have hhere (hes : es ≠ []) : e.contained := by
        apply hcontained
        rw [List.dropLast_cons_of_ne_nil hes]
        exact List.mem_cons_self
      rw [List.length_cons, salvage, List.filter_cons]
      cases hfate : e.fate with
      | untagged => exact absurd hfate htag
      | unknown =>
          rw [Entry.sound, hfate]
          exact hrest
      | broken short =>
          rw [Entry.sound, hfate]
          cases es with
          | nil => rfl
          | cons e' es =>
              have hshort := hhere (List.cons_ne_nil e' es)
              rw [Entry.contained, hfate] at hshort
              obtain rfl : short = false := by simpa using hshort
              exact hrest
      | read n left =>
          rw [Entry.sound, hfate]
          dsimp only
          by_cases hleft : left = []
          · subst hleft
            rw [if_pos rfl, hrest, Option.map_some]
            rfl
          · -- what is left over goes with the last record, and that does not fit
            have hlast : es = [] := by
              by_contra hes
              have hnil := hhere hes
              rw [Entry.contained, hfate, List.isEmpty_iff] at hnil
              exact hleft hnil
            subst hlast
            have hn : ¬resolves g n := by
              rw [Entry.sound, Entry.damaged, Entry.node?, hfate] at he
              simpa [hleft] using he
            rw [if_neg hleft, if_pos List.length_nil, if_neg hn]
            simp [hn]

variable {head : List (List Word)} {root : Option Id} {records : List Entry} {text : String}

/-- A text of such lines, then a line with the number of the records, and the records. -/
def Lists (head : List (List Word)) (records : List Entry) (text : String) : Prop :=
  ∃ w ws, (Reader.ofText text).ahead = head ++ (w :: ws) :: records.flatMap Entry.lines ∧
    Text.uint64? w = some records.length

/-- The document of a text is the graph and the root before its records, and what comes of these. -/
theorem load_ensures_salvage (hopens : Opens head g root) (hlists : Lists head records text) :
    load.Ensures (Reader.ofText text) (fun _ _ => salvage g records.length records = none)
      fun d _ => ∃ kept, salvage g records.length records = some kept ∧
        d = { graph := g, root := root.filter g.hasNode, nodes := gather g kept [] } := by
  obtain ⟨r, r', hgraph, hroot, hr'⟩ := hopens
  obtain ⟨w, ws, hahead, hcount⟩ := hlists
  have hstart : (Reader.ofLines head).Followed ((w :: ws) :: records.flatMap Entry.lines)
      (Reader.ofText text) := by
    refine ⟨rfl, ?_⟩
    rw [Reader.ahead_ofLines]
    exact hahead
  have hroot' : (parsing readRoot).on r = (.ok root, r') := by
    rw [parsing, Attempt.on_zoom, hroot]
    rfl
  obtain ⟨s, hgraph, hs⟩ := extends_readGraph _ _ _ hstart _ _ hgraph
  obtain ⟨s', hroot, hs'⟩ := extends_readRoot.parsing _ _ _ hs _ _ hroot'
  have hs' : s'.page = (s'.words, (w :: ws) :: records.flatMap Entry.lines) := by
    refine Prod.ext rfl (hs'.ahead.trans ?_)
    rw [hr', List.nil_append]
  have hread : Reads readCount (s'.words, (w :: ws) :: records.flatMap Entry.lines)
      records.length (ws, records.flatMap Entry.lines) :=
    (reads_nextLine _ _).bind (reads_form hcount)
  refine Attempt.ensures_bind_of_ok hgraph ?_
  refine Attempt.ensures_bind_of_ok hroot ?_
  refine (hread.parsing _).ensures_bind hs' fun s₁ hs₁ => ?_
  have hnodes : (readUiNodes g [] records.length).Ensures s₁
      (fun _ _ => salvage g records.length records = none) fun nodes _ =>
        ∃ kept, salvage g records.length records = some kept ∧ nodes = gather g kept [] :=
    readUiNodes_ensures_salvage le_rfl (Reader.ahead_of_page hs₁)
  refine (ensures_parsing hnodes).bind ?_
  rintro _ s₂ ⟨kept, hkept, rfl⟩
  exact Attempt.ensures_pure ⟨kept, hkept, rfl⟩

theorem parse_eq_of_salvage (hopens : Opens head g root) (hlists : Lists head records text)
    (hkept : salvage g records.length records = some kept) : parse text = .ok
      { graph := g, root := root.filter g.hasNode, nodes := gather g kept [] } := by
  have hload := load_ensures_salvage hopens hlists
  unfold Attempt.Ensures at hload
  unfold parse
  split at hload
  · next d r h =>
    obtain ⟨kept', hkept', hd⟩ := hload
    rw [h, hd, Option.some.inj (hkept'.symm.trans hkept)]
  · rw [hload] at hkept
    cases hkept

theorem parse_error_of_salvage (hopens : Opens head g root) (hlists : Lists head records text)
    (hnone : salvage g records.length records = none) : ∃ err, parse text = .error err := by
  have hload := load_ensures_salvage hopens hlists
  unfold Attempt.Ensures at hload
  unfold parse
  split at hload
  · obtain ⟨kept, hkept, _⟩ := hload
    rw [hnone] at hkept
    cases hkept
  · next err r h => exact ⟨err, congrArg Prod.fst h⟩

/-- Where no damage reaches beyond its record, the damaged records cost nothing else: the text gives
what any text without them gives. In any case a text is refused, or it gives what a text of those of
its records gives that were salvaged. -/
theorem parse_salvages (hopens : Opens head g root) (hlists : Lists head records text) :
    ((∀ e ∈ records, e.sound g ∨ e.damaged g) → (∀ e ∈ records, e.fate ≠ .untagged) →
      (∀ e ∈ records.dropLast, e.contained) →
        parse text = .ok
          { graph := g
            root := root.filter g.hasNode
            nodes := gather g (records.filter (Entry.sound g)) [] } ∧
        ∀ mended, Lists head (records.filter (Entry.sound g)) mended →
          parse mended = parse text) ∧
    (salvage g records.length records = none → ∃ err, parse text = .error err) ∧
    ∀ kept, salvage g records.length records = some kept →
      kept.Sublist records ∧
      parse text = .ok { graph := g, root := root.filter g.hasNode, nodes := gather g kept [] } ∧
      ∀ other, Lists head kept other → parse other = parse text := by
  have hsome (kept : List Entry) (hkept : salvage g records.length records = some kept) :
      kept.Sublist records ∧
        parse text = .ok
          { graph := g, root := root.filter g.hasNode, nodes := gather g kept [] } ∧
        ∀ other, Lists head kept other → parse other = parse text := by
    obtain ⟨hagain, hsub⟩ := salvage_salvage hkept le_rfl
    have htext := parse_eq_of_salvage hopens hlists hkept
    refine ⟨hsub, htext, fun other hother => ?_⟩
    rw [htext, parse_eq_of_salvage hopens hother hagain]
  refine ⟨fun hall htagged hcontained => ?_, parse_error_of_salvage hopens hlists, hsome⟩
  exact (hsome _ (salvage_of_contained hall htagged hcontained)).2

/-- A draw node that counts one line more than it has, and then a render target. -/
def starved : String :=
  "#graph\n20\n6\nn 0 3 0 0\nn 1 15 1 0\nn 2 15 1 0\nn 3 10 2 0\nn 4 6 0 0\nn 5 10 1 0\n0\n" ++
    "#ui_nodes\n-1\n2\nuin 15 0 2 1 3 1 0 0 0\nuin 16 4 5\n"

def starvedHead : List (List Word) := (Reader.ofText starved).ahead.take 12

def starvedDraw : Entry := ⟨Text.words "15 0 2 1 3 1 0 0 0".toList, [], by simp⟩

def starvedTarget : Entry := ⟨Text.words "16 4 5".toList, [], by simp⟩

/-- The graph of that text has room for the render target. -/
theorem opens_starved : ∃ g, Opens starvedHead g none ∧
    resolves g (.renderTarget 4 5 false) := by
  have hnode : (readGraph.on (Reader.ofLines starvedHead)).1.toOption.map
      (fun g => resolves g (.renderTarget 4 5 false)) = some true := by decide +kernel
  have hroot : (readRoot.on (readGraph.on (Reader.ofLines starvedHead)).2).1 = .ok none := by
    decide +kernel
  have hend : (readRoot.on (readGraph.on (Reader.ofLines starvedHead)).2).2.ahead = [] := by
    decide +kernel
  cases h : readGraph.on (Reader.ofLines starvedHead) with
  | mk result r =>
    rw [h] at hnode hroot hend
    cases result with
    | error e => cases hnode
    | ok g => exact ⟨g, ⟨r, _, h, Prod.ext hroot rfl, hend⟩, Option.some.inj hnode⟩

theorem lists_starved : Lists starvedHead [starvedDraw, starvedTarget] starved := by
  refine ⟨"2".toList, [], ?_, ?_⟩
  · decide +kernel
  · decide +kernel

/-- With the draw node the render target is lost, though by itself it would be read. -/
theorem parse_starved : ∃ g, Opens starvedHead g none ∧
    Lists starvedHead [starvedDraw, starvedTarget] starved ∧
    [starvedDraw, starvedTarget].filter (Entry.sound g) = [starvedTarget] ∧
    parse starved = .ok { graph := g, root := none, nodes := [] } ∧
    ∀ mended, Lists starvedHead [starvedTarget] mended →
      parse mended = .ok { graph := g, root := none, nodes := [.renderTarget 4 5 false] } := by
  obtain ⟨g, hopens, hnode⟩ := opens_starved
  have hdraw : starvedDraw.fate = .broken true := by decide +kernel
  have htarget : starvedTarget.fate = .read (.renderTarget 4 5 false) [] := by decide +kernel
  have hsalvage : salvage g 2 [starvedDraw, starvedTarget] = some [] := by
    rw [salvage, hdraw]
    rfl
  have hkept : salvage g 1 [starvedTarget] = some [starvedTarget] := by
    simp [salvage, htarget, hnode]
  obtain ⟨-, hstarved, -⟩ := (parse_salvages hopens lists_starved).2.2 [] hsalvage
  refine ⟨g, hopens, lists_starved, ?_, hstarved, fun mended hmended => ?_⟩
  · simp [Entry.sound, hdraw, htarget, hnode]
  · obtain ⟨-, hmended, -⟩ := (parse_salvages hopens hmended).2.2 _ hkept
    rw [hmended]
    simp [gather, takeIn, Entry.node?, htarget, hnode]

end Document

end DrawGraph
