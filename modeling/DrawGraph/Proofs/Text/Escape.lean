import DrawGraph.Proofs.Record.Reader

/-!
# Escaped words, byte by byte

A word can also be read over its UTF-8 bytes: a byte that is not a percent sign stands for itself,
and the two bytes after a percent sign are cut out of the word, which fails where a cut would fall
within a character. This finds what reading over characters finds. Whatever the text, its escaped
form is read back in both ways, and unless it is empty a reader of lines sees it as a single word.
-/

namespace DrawGraph

namespace Text

/-- The part of a text between two byte positions, if both are between characters. -/
def part? (w : String) (i j : Nat) : Option String :=
  if h : String.Pos.Raw.IsValid w ⟨i⟩ ∧ String.Pos.Raw.IsValid w ⟨j⟩ then
    some (w.extract ⟨⟨i⟩, h.1⟩ ⟨⟨j⟩, h.2⟩)
  else none

/-- The bytes that a written word stands for, from position `i` on. -/
def scanFrom? (w : String) (i : Nat) : Option (List UInt8) :=
  if h : i < w.toByteArray.size then
    if w.toByteArray[i] = '%'.toUInt8 then do
      let digits ← part? w (i + 1) (i + 3)
      let byte ← unsigned? 16 255 digits.toList
      let rest ← scanFrom? w (i + 3)
      some (.ofNat byte :: rest)
    else do
      let rest ← scanFrom? w (i + 1)
      some (w.toByteArray[i] :: rest)
  else some []
termination_by w.toByteArray.size - i
decreasing_by all_goals exact Nat.sub_lt_sub_left h (by omega)

/-- The text that a written word stands for, if its bytes are UTF-8. -/
def scan? (w : String) : Option String := do
  let bytes ← scanFrom? w 0
  String.fromUTF8? ⟨bytes.toArray⟩

/-! ## Parts -/

theorem part?_append (s d t : String) :
    part? (s ++ (d ++ t)) s.utf8ByteSize (s.utf8ByteSize + d.utf8ByteSize) = some d := by
  have hstart : String.Pos.Raw.IsValid (s ++ (d ++ t)) ⟨s.utf8ByteSize⟩ :=
    String.Pos.Raw.isValid_iff_exists_append.2 ⟨s, d ++ t, rfl, rfl⟩
  have hend : String.Pos.Raw.IsValid (s ++ (d ++ t)) ⟨s.utf8ByteSize + d.utf8ByteSize⟩ :=
    String.Pos.Raw.isValid_iff_exists_append.2
      ⟨s ++ d, t, String.append_assoc.symm, by rw [← String.utf8ByteSize_append]; rfl⟩
  rw [part?, dif_pos ⟨hstart, hend⟩, Option.some.injEq, ← String.toByteArray_inj,
    String.toByteArray_extract, String.toByteArray_append, String.toByteArray_append]
  have hbytes := ByteArray.extract_append_size_add (a := s.toByteArray) (i := 0)
    (j := d.utf8ByteSize) (b := d.toByteArray ++ t.toByteArray)
  exact hbytes.trans (ByteArray.extract_append_eq_left rfl)

theorem exists_append_of_lt {s t s' u : String} (h : s ++ t = s' ++ u)
    (hlt : s.utf8ByteSize < s'.utf8ByteSize) : ∃ d, s' = s ++ d ∧ t = d ++ u := by
  have hchars : s.toList ++ t.toList = s'.toList ++ u.toList := by
    rw [← String.toList_append, h, String.toList_append]
  rcases List.append_eq_append_iff.1 hchars with ⟨cs, hs', ht⟩ | ⟨cs, hs, -⟩
  · refine ⟨String.ofList cs, ?_, ?_⟩
    · rw [← String.toList_inj, hs', String.toList_append, String.toList_ofList]
    · rw [← String.toList_inj, ht, String.toList_append, String.toList_ofList]
  · have hs : s = s' ++ String.ofList cs := by
      rw [← String.toList_inj, hs, String.toList_append, String.toList_ofList]
    rw [hs, String.utf8ByteSize_append] at hlt
    omega

/-- What is cut out after a first part is the start of the other. -/
theorem exists_of_part? {s t d : String} {n : Nat} (hn : 0 < n)
    (h : part? (s ++ t) s.utf8ByteSize (s.utf8ByteSize + n) = some d) :
    d.utf8ByteSize = n ∧ ∃ u, t = d ++ u := by
  have hend : String.Pos.Raw.IsValid (s ++ t) ⟨s.utf8ByteSize + n⟩ := by
    unfold part? at h
    split at h
    · next hvalid => exact hvalid.2
    · cases h
  obtain ⟨s', u, heq, hend⟩ := String.Pos.Raw.isValid_iff_exists_append.1 hend
  have hsize : s.utf8ByteSize + n = s'.utf8ByteSize := congrArg String.Pos.Raw.byteIdx hend
  obtain ⟨e, rfl, ht⟩ := exists_append_of_lt heq (by omega)
  rw [String.utf8ByteSize_append, Nat.add_left_cancel_iff] at hsize
  rw [ht, hsize, part?_append] at h
  obtain rfl := Option.some.inj h
  exact ⟨hsize.symm, u, ht⟩

/-! ## Numbers are of single bytes -/

theorem utf8Size_of_digit? {c : Char} {n : Nat} (h : digit? 16 c = some n) : c.utf8Size = 1 := by
  have hle : c ≤ '9' ∨ c ≤ 'f' ∨ c ≤ 'F' := by
    by_contra hnone
    simp only [not_or] at hnone
    simp [digit?, hnone] at h
  have hascii {d : Char} (hd : d ≤ '\x7f') (hc : c ≤ d) : c.utf8Size = 1 :=
    Char.utf8Size_eq_one_iff.2 (hc.trans hd)
  rcases hle with hle | hle | hle
  · exact hascii (by decide) hle
  · exact hascii (by decide) hle
  · exact hascii (by decide) hle

theorem utf8Size_of_digitsFrom? {cs : List Char} {acc n : Nat}
    (h : digitsFrom? 16 acc cs = some n) : ∀ c ∈ cs, c.utf8Size = 1 := by
  induction cs generalizing acc with
  | nil => exact fun _ hc => nomatch hc
  | cons c cs ih =>
      simp only [digitsFrom?, Option.bind_eq_bind, Option.bind_eq_some_iff] at h
      obtain ⟨d, hd, h⟩ := h
      exact List.forall_mem_cons.2 ⟨utf8Size_of_digit? hd, ih h⟩

theorem utf8Size_of_unsigned? {bound n : Nat} {cs : List Char}
    (h : unsigned? 16 bound cs = some n) : ∀ c ∈ cs, c.utf8Size = 1 := by
  have hnatural {ds : List Char} {m : Nat} (hm : natural? 16 ds = some m) :
      ∀ c ∈ ds, c.utf8Size = 1 := by
    unfold natural? at hm
    split at hm
    · cases hm
    · exact utf8Size_of_digitsFrom? hm
  unfold unsigned? at h
  split at h
  · obtain ⟨m, hm, _⟩ := Option.bind_eq_some_iff.1 h
    exact List.forall_mem_cons.2 ⟨rfl, hnatural hm⟩
  · obtain ⟨m, hm, _⟩ := Option.bind_eq_some_iff.1 h
    exact hnatural hm

/-! ## Scanning -/

/-- Only a percent sign has the byte of one. -/
theorem percent_notMem {c : Char} (hc : c ≠ '%') : '%'.toUInt8 ∉ String.utf8EncodeChar c := by
  have hval : c.val.toNat ≠ 37 := fun heq => hc (Char.toNat_inj.1 heq)
  have hpercent : '%'.toUInt8.toNat = 37 := rfl
  intro h
  simp only [String.utf8EncodeChar] at h
  split_ifs at h
  all_goals
    simp only [List.mem_cons, List.not_mem_nil, or_false, ← UInt8.toNat_inj, UInt8.toNat_ofNat',
      hpercent] at h
    omega

theorem getElem_size {x a z : ByteArray} {b : UInt8} (hx : x = a ++ ([b].toByteArray ++ z)) :
    ∃ h : a.size < x.size, x[a.size] = b := by
  subst hx
  have hlt : a.size < (a ++ ([b].toByteArray ++ z)).size := by
    rw [ByteArray.size_append, ByteArray.size_append, List.size_toByteArray, List.length_singleton]
    omega
  refine ⟨hlt, ?_⟩
  rw [ByteArray.getElem_append_right (Nat.le_refl _), ByteArray.getElem_append_left (by simp)]
  simp only [Nat.sub_self, List.getElem_toByteArray, List.getElem_cons_zero]

/-- Bytes without a percent sign are passed through, whole characters or not. -/
theorem scanFrom?_run {w : String} {a z : ByteArray} {bs : List UInt8}
    (hbs : '%'.toUInt8 ∉ bs) (hw : w.toByteArray = a ++ (bs.toByteArray ++ z)) :
    scanFrom? w a.size = (scanFrom? w (a.size + bs.length)).map (bs ++ ·) := by
  induction bs generalizing a with
  | nil =>
      rw [List.length_nil, Nat.add_zero]
      exact Option.map_id'.symm
  | cons b bs ih =>
      rw [List.mem_cons, not_or] at hbs
      have hsplit : w.toByteArray = a ++ ([b].toByteArray ++ (bs.toByteArray ++ z)) := by
        rw [← ByteArray.append_assoc (b := bs.toByteArray), ← List.toByteArray_append]
        exact hw
      obtain ⟨hlt, hget⟩ := getElem_size hsplit
      have hsize : (a ++ [b].toByteArray).size = a.size + 1 := by
        rw [ByteArray.size_append, List.size_toByteArray, List.length_singleton]
      rw [← ByteArray.append_assoc] at hsplit
      have hrest := ih hbs.2 hsplit
      rw [hsize, Nat.add_assoc, Nat.add_comm 1, ← List.length_cons (a := b)] at hrest
      rw [scanFrom?, dif_pos hlt, hget, if_neg (Ne.symm hbs.1), hrest]
      cases scanFrom? w (a.size + (b :: bs).length) <;> rfl

theorem toByteArray_push_append (s : String) (c : Char) (t : String) :
    (s.push c ++ t).toByteArray =
      s.toByteArray ++ ((String.utf8EncodeChar c).toByteArray ++ t.toByteArray) := by
  rw [String.toByteArray_append, String.toByteArray_push, List.utf8Encode_singleton,
    ByteArray.append_assoc]

theorem scanFrom?_push (s : String) {c : Char} (hc : c ≠ '%') (t : String) :
    scanFrom? (s.push c ++ t) s.utf8ByteSize =
      (scanFrom? (s.push c ++ t) (s.push c).utf8ByteSize).map (String.utf8EncodeChar c ++ ·) := by
  rw [String.utf8ByteSize_push, ← String.length_utf8EncodeChar]
  exact scanFrom?_run (percent_notMem hc) (toByteArray_push_append s c t)

theorem scanFrom?_percent (s t : String) :
    scanFrom? (s.push '%' ++ t) s.utf8ByteSize = (do
      let digits ← part? (s.push '%' ++ t) (s.push '%').utf8ByteSize
        ((s.push '%').utf8ByteSize + 2)
      let byte ← unsigned? 16 255 digits.toList
      let rest ← scanFrom? (s.push '%' ++ t) ((s.push '%').utf8ByteSize + 2)
      some (.ofNat byte :: rest)) := by
  obtain ⟨hlt, hget⟩ := getElem_size (toByteArray_push_append s '%' t)
  have hsize : (s.push '%').utf8ByteSize = s.utf8ByteSize + 1 := String.utf8ByteSize_push
  rw [scanFrom?, hsize]
  exact (dif_pos hlt).trans (if_pos hget)

theorem scanFrom?_escape (s : String) {d : String} (hd : d.utf8ByteSize = 2) (t : String) :
    scanFrom? (s.push '%' ++ (d ++ t)) s.utf8ByteSize = (do
      let byte ← unsigned? 16 255 d.toList
      let rest ← scanFrom? (s.push '%' ++ (d ++ t)) (s.push '%' ++ d).utf8ByteSize
      some (.ofNat byte :: rest)) := by
  have hpart := part?_append (s.push '%') d t
  rw [hd] at hpart
  rw [scanFrom?_percent, hpart, String.utf8ByteSize_append (s := s.push '%'), hd]
  rfl

theorem utf8Len_eq_length {cs : List Char} (h : ∀ c ∈ cs, c.utf8Size = 1) :
    String.utf8Len cs = cs.length := by
  induction cs with
  | nil => rfl
  | cons c cs ih =>
      obtain ⟨hc, hcs⟩ := List.forall_mem_cons.1 h
      rw [String.utf8Len_cons, hc, ih hcs, List.length_cons]

/-- Two bytes that are a number are two characters. -/
theorem exists_of_unsigned? {d : String} (hd : d.utf8ByteSize = 2) {n : Nat}
    (h : unsigned? 16 255 d.toList = some n) : ∃ a b, d = String.ofList [a, b] := by
  have hlength := utf8Len_eq_length (utf8Size_of_unsigned? h)
  rw [← String.utf8ByteSize_ofList, String.ofList_toList, hd] at hlength
  obtain ⟨a, b, hab⟩ := List.length_eq_two.1 hlength.symm
  exact ⟨a, b, by rw [← hab, String.ofList_toList]⟩

/-- Nothing is read from a percent sign on that no two digits follow. -/
theorem scanFrom?_percent_eq_none (s : String) {cs : List Char}
    (h : ∀ a b rest, cs = a :: b :: rest → unsigned? 16 255 [a, b] = none) :
    scanFrom? (s.push '%' ++ String.ofList cs) s.utf8ByteSize = none := by
  rw [scanFrom?_percent]
  cases hpart : part? (s.push '%' ++ String.ofList cs) (s.push '%').utf8ByteSize
      ((s.push '%').utf8ByteSize + 2) with
  | none => rfl
  | some d =>
    -- Two bytes may be cut out that are one character, but then they are no number.
    obtain ⟨hd, u, hcs⟩ := exists_of_part? (by decide) hpart
    cases hbyte : unsigned? 16 255 d.toList with
    | none =>
        rw [Option.bind_eq_bind, Option.bind_some, hbyte]
        rfl
    | some n =>
        obtain ⟨a, b, rfl⟩ := exists_of_unsigned? hd hbyte
        have hchars : cs = a :: b :: u.toList := by
          rw [← String.toList_ofList (l := cs), hcs, String.toList_append, String.toList_ofList]
          rfl
        rw [String.toList_ofList, h a b _ hchars] at hbyte
        cases hbyte

theorem append_ofList_cons (s : String) (c : Char) (cs : List Char) :
    s ++ String.ofList (c :: cs) = s.push c ++ String.ofList cs := by
  rw [String.ofList_cons, ← String.append_assoc, String.append_singleton]

/-- From between two characters on, the bytes are those that reading over characters gives. -/
theorem scanFrom?_eq (s : String) (cs : List Char) :
    scanFrom? (s ++ String.ofList cs) s.utf8ByteSize = unescapeBytes? cs := by
  -- What was read so far grows into `s`, so that each position met is the end of a text.
  induction cs using unescapeBytes?.induct generalizing s with
  | case1 => rw [scanFrom?, dif_neg (by simp), unescapeBytes?]
  | case2 a b cs ih =>
      rw [append_ofList_cons]
      cases hbyte : unsigned? 16 255 [a, b] with
      | none =>
          have hnone (a' b' : Char) (rest : List Char) (heq : a :: b :: cs = a' :: b' :: rest) :
              unsigned? 16 255 [a', b'] = none := by
            cases heq
            exact hbyte
          rw [scanFrom?_percent_eq_none s hnone, unescapeBytes?, hbyte]
          rfl
      | some n =>
          have hsize : (String.ofList [a, b]).utf8ByteSize = 2 := by
            rw [String.utf8ByteSize_ofList]
            exact utf8Len_eq_length (utf8Size_of_unsigned? hbyte)
          have hdigits : String.ofList (a :: b :: cs) = String.ofList [a, b] ++ String.ofList cs :=
            @String.ofList_append [a, b] cs
          have hnext := ih (s.push '%' ++ String.ofList [a, b])
          rw [String.append_assoc] at hnext
          rw [hdigits, scanFrom?_escape s hsize, hnext, String.toList_ofList, unescapeBytes?]
  | case3 cs hcs =>
      have hshort (a b : Char) (rest : List Char) (heq : cs = a :: b :: rest) :
          unsigned? 16 255 [a, b] = none := (hcs a b rest rfl heq).elim
      rw [append_ofList_cons, scanFrom?_percent_eq_none s hshort, unescapeBytes?.eq_3 _ _ hcs,
        if_pos rfl]
  | case4 c cs _ hc ih =>
      rw [append_ofList_cons, scanFrom?_push s hc, ih,
        unescapeBytes?.eq_3 _ _ fun _ _ _ heq => absurd heq hc, if_neg hc]
      cases unescapeBytes? cs <;> rfl

/-- A word is read the same over its bytes and over its characters. -/
theorem scan?_eq (w : String) : scan? w = (unescape? w.toList).map String.ofList := by
  have hbytes : scanFrom? w 0 = unescapeBytes? w.toList := by
    have h := scanFrom?_eq "" w.toList
    rwa [String.empty_append, String.ofList_toList] at h
  rw [scan?, unescape?, hbytes]
  cases unescapeBytes? w.toList with
  | none => rfl
  | some bytes =>
      simp only [Option.bind_eq_bind, Option.bind_some]
      cases String.fromUTF8? ⟨bytes.toArray⟩ with
      | none => rfl
      | some text => exact congrArg some String.ofList_toList.symm

/-! ## Escaped texts -/

theorem lines_of_notMem {cs : List Char} (h : '\n' ∉ cs) : lines cs = [cs] := by
  induction cs with
  | nil => rfl
  | cons c cs ih =>
      rw [List.mem_cons, not_or] at h
      rw [lines, ih h.2]
      exact fun hc => h.1 hc.symm

/-- A reader of lines comes to nothing but the escaped text. -/
theorem rest_ofText_escape (cs : List Char) :
    (Reader.ofText (String.ofList (escape cs))).rest =
      if (escape cs).isEmpty then [] else [(1, [escape cs])] := by
  have hplain : ∀ w ∈ [escape cs], ∀ c ∈ w, isBlank c = false := by
    intro w hw c hc
    rw [List.mem_singleton.1 hw] at hc
    exact isBlank_of_mem_escape hc
  have hnewline : '\n' ∉ escape cs := by
    intro h
    have hblank := isBlank_of_mem_escape h
    revert hblank
    decide
  have hwords : words (escape cs) = [escape cs].filter fun w => !w.isEmpty := by
    rw [← words_intercalate_filter hplain, List.intercalate_singleton]
  rw [Reader.ofText, String.toList_ofList, lines_of_notMem hnewline, List.zipIdx_singleton,
    List.filterMap_cons]
  dsimp only
  rw [hwords, List.filter_singleton]
  cases (escape cs).isEmpty <;> rfl

/-- Whatever the text, its escaped form has no blank, is one word to a reader of lines just if the
text is not empty, and is read back over characters and over bytes. So no two texts share it. -/
theorem escape_faithful :
    (∀ cs : List Char, (∀ c ∈ escape cs, isBlank c = false) ∧
      ((Reader.ofText (String.ofList (escape cs))).rest = [(1, [escape cs])] ↔ cs ≠ []) ∧
      unescape? (escape cs) = some cs ∧
      scan? (String.ofList (escape cs)) = some (String.ofList cs)) ∧
    Function.Injective escape := by
  constructor
  · intro cs
    refine ⟨fun c => isBlank_of_mem_escape, ?_, unescape?_escape cs, ?_⟩
    · rw [rest_ofText_escape]
      constructor
      · rintro h rfl
        cases h
      · intro hcs
        rw [if_neg (by simpa using escape_ne_nil hcs)]
    · rw [scan?_eq, String.toList_ofList, unescape?_escape, Option.map_some]
  · intro cs ds h
    have hread := unescape?_escape cs
    rw [h, unescape?_escape ds] at hread
    exact (Option.some.inj hread).symm

end Text

end DrawGraph
