import ReactMigration.Proofs.CanonicalMarkup
import ReactMigration.Proofs.MarkupReading

/-!
The reader finds every tree again from its canonical markup.

Each piece of the markup is read to its end and no further: a name up to the equals sign or the space
behind it, a value up to its quote, a run of text up to the next tag or interpolation, and the content of
an element up to its own end tag.  What is read is the piece itself, up to its place.
-/

namespace ReactMigration.Text

theorem stripWith_between {p : Char → Bool} {a b : Char} (first : p a = true) (last : p b = true)
    (cs : List Char) : stripWith p (a :: (cs ++ [b])) = stripWith p cs := by
  unfold stripWith dropTrailing
  rw [List.dropWhile_cons_of_pos first, List.dropWhile_append]
  split
  · rename_i empty
    simp [List.isEmpty_iff.mp empty, last]
  · simp [last]

theorem isLetter_of_isAsciiLetter {c : Char} (h : isAsciiLetter c = true) : isLetter c = true := by
  simp only [isAsciiLetter, Bool.or_eq_true, Bool.and_eq_true, decide_eq_true_eq] at h
  have bounds : (97 ≤ c.toNat ∧ c.toNat ≤ 122) ∨ (65 ≤ c.toNat ∧ c.toNat ≤ 90) := h
  unfold isLetter
  rw [if_pos (by omega)]
  refine Bool.or_eq_true_iff.mpr (h.symm.imp (fun upper => ?_) (fun lower => ?_))
  · exact decide_eq_true upper
  · exact Bool.and_eq_true_iff.mpr (lower.imp decide_eq_true decide_eq_true)

theorem visible_of_isAsciiLetter {c : Char} (h : isAsciiLetter c = true) : isBlank c = false := by
  simp only [isAsciiLetter, Bool.or_eq_true, Bool.and_eq_true, decide_eq_true_eq] at h
  have bounds : (97 ≤ c.toNat ∧ c.toNat ≤ 122) ∨ (65 ≤ c.toNat ∧ c.toNat ≤ 90) := h
  simp only [isBlank, Bool.or_eq_false_iff, Bool.and_eq_false_iff, decide_eq_false_iff_not, beq_eq_false_iff_ne]
  omega

end ReactMigration.Text

namespace ReactMigration.Template

open ReactMigration.Text

variable {c start : Cursor}

/-! ### Attributes -/

theorem readAttributeValue_quoted (name : String) (start : Cursor) {v rest : List Char} (closes : '"' ∉ v)
    (after : c.after = '"' :: (v ++ '"' :: rest)) :
    ∃ d, readAttributeValue name start c = .ok (String.ofList v, d) ∧ d.after = rest := by
  have inside : (v ++ '"' :: rest).takeWhile (· != '"') = v :=
    takeWhile_append_of_notNext (List.all_eq_true.mpr fun a mem => by
      simp only [bne_iff_ne]
      rintro rfl
      exact closes mem) (by simp [NotNext])
  have whole : c.after = ('"' :: (v ++ ['"'])) ++ rest := by simp [after]
  refine ⟨_, ?_, (Cursor.spans_advance whole).remaining whole⟩
  simp [readAttributeValue, after, inside]

/-- An attribute is read up to what follows, white space perhaps included. -/
theorem readAttribute_written {name : String} {value : Option String} {r : ReadAttribute} {more : List Char}
    (written : IsWritten name value) (after : c.after = name.toList ++ (valueSource value ++ more))
    (ends : NotNext isAttributeName more) (alone : NotNext (· == '=') (more.dropWhile isBlank))
    (means : classifyAttribute name value c = .ok r) :
    ∃ d, readAttribute c = .ok (r, d) ∧ d.after.dropWhile isBlank = more.dropWhile isBlank := by
  have taken : c.after.takeWhile isAttributeName = name.toList := by
    rw [after]
    refine takeWhile_append_of_notNext written.letters ?_
    cases value with
    | none => exact ends
    | some v => intro a first; cases first; rfl
  have behind : (c.advance name.toList.length).after = valueSource value ++ more :=
    (Cursor.spans_advance after).remaining after
  have stop := skipBlanks_after (c.advance name.toList.length)
  rw [behind] at stop
  unfold readAttribute
  simp only [taken, String.ofList_toList]
  generalize skipBlanks (c.advance name.toList.length) = d at *
  rw [if_neg (by simpa using written.named)]
  cases value with
  | none =>
      rw [show valueSource none = [] from rfl, List.nil_append] at stop
      refine ⟨d, ?_, by rw [stop]; exact dropWhile_of_notNext (notNext_dropWhile isBlank more)⟩
      split
      · rename_i equals
        have := alone '=' (by simp [← stop, equals])
        cases this
      · rw [means]
        rfl
  | some v =>
      rw [show valueSource (some v) ++ more = '=' :: '"' :: (v.toList ++ '"' :: more) by simp [valueSource],
        dropWhile_of_notNext (by rintro _ ⟨⟩; rfl)] at stop
      have next : d.next.after = '"' :: (v.toList ++ '"' :: more) := (Cursor.spans_next stop).remaining stop
      have value : (skipBlanks d.next).after = '"' :: (v.toList ++ '"' :: more) := by
        rw [skipBlanks_after, next, dropWhile_of_notNext (by rintro _ ⟨⟩; rfl)]
      obtain ⟨last, read, rest⟩ := readAttributeValue_quoted name c (written.closes v rfl) value
      refine ⟨last, ?_, by rw [rest]⟩
      simp only [stop, read, String.ofList_toList]
      show (classifyAttribute name (some v) c >>= fun r => pure (r, last)) = _
      rw [means]
      rfl

/-! ### Start tags and end tags -/

theorem visible_of_isAttributeName {l : Char} (h : isAttributeName l = true) :
    isBlank l = false ∧ l ≠ '=' ∧ l ≠ '>' ∧ l ≠ '/' := by
  simp only [isAttributeName, Bool.not_eq_true', Bool.or_eq_false_iff, beq_eq_false_iff_ne] at h
  exact ⟨h.1.1.1.1.1, h.1.1.1.1.2, h.1.1.1.2, h.1.1.2⟩

theorem dropWhile_source {a : ReadAttribute} (written : IsWritten a.written.1 a.written.2)
    (more : List Char) :
    ∃ l cs, isAttributeName l = true ∧ (a.source ++ more).dropWhile isBlank = l :: cs ∧
      l :: cs = a.written.1.toList ++ (valueSource a.written.2 ++ more) := by
  obtain ⟨l, cs, letters⟩ := List.exists_cons_of_ne_nil (mt String.toList_eq_nil_iff.mp written.named)
  have letter : isAttributeName l = true := List.all_eq_true.mp written.letters l (by simp [letters])
  have visible := (visible_of_isAttributeName letter).1
  refine ⟨l, cs ++ (valueSource a.written.2 ++ more), letter, ?_, by simp [letters]⟩
  simp [ReadAttribute.source, letters, show isBlank ' ' = true from rfl, visible]

/-- What follows an attribute in a start tag is no part of it. -/
theorem notNext_sources {items : List ReadAttribute}
    (written : ∀ a ∈ items, IsWritten a.written.1 a.written.2) (selfClosing : Bool) (rest : List Char) :
    NotNext isAttributeName (items.flatMap (·.source) ++ (closeTag selfClosing ++ rest)) ∧
      NotNext (· == '=')
        ((items.flatMap (·.source) ++ (closeTag selfClosing ++ rest)).dropWhile isBlank) := by
  cases items with
  | nil => cases selfClosing <;> exact ⟨by rintro _ ⟨⟩; rfl, by rintro _ ⟨⟩; rfl⟩
  | cons a items =>
      constructor
      · rintro _ ⟨⟩
        rfl
      · rw [List.flatMap_cons, List.append_assoc]
        obtain ⟨l, cs, letter, first, -⟩ := dropWhile_source (written a (by simp))
          (items.flatMap (·.source) ++ (closeTag selfClosing ++ rest))
        rw [first]
        rintro _ ⟨⟩
        simpa using (visible_of_isAttributeName letter).2.1

theorem isWritten_of_isCanonical {a : ReadAttribute} (canonical : a.isCanonical = true) :
    IsWritten a.written.1 a.written.2 ∧ a.isOwnKind = true := by
  simpa [ReadAttribute.isCanonical] using canonical

/-- What stands in a start tag is read one by one. -/
theorem readAttributes_written (tag : String) (start : Cursor) {selfClosing : Bool} {rest : List Char} :
    ∀ {items : List ReadAttribute} {fuel : Nat} (attributes : List Attribute)
      (structurals : List (String × String × Position)) {c : Cursor}, c.after.length < fuel →
      (∀ a ∈ items, a.isCanonical = true) →
      c.after.dropWhile isBlank =
        (items.flatMap (·.source) ++ (closeTag selfClosing ++ rest)).dropWhile isBlank →
      ∃ (rs : List ReadAttribute) (d : Cursor), readAttributes tag start fuel attributes structurals c =
          .ok ⟨attributes.reverse ++ rs.filterMap (·.plain?),
            structurals.reverse ++ rs.filterMap (·.structural?), selfClosing, d⟩ ∧
        rs.map (·.unplaced) = items.map (·.unplaced) ∧ d.after = rest
  | _, 0, _, _, _, enough, _, _ => by omega
  | [], fuel + 1, attributes, structurals, c, _, _, after => by
      rw [← skipBlanks_after] at after
      unfold readAttributes
      cases selfClosing with
      | false =>
          have closes : (skipBlanks c).after = '>' :: rest := after
          refine ⟨[], (skipBlanks c).next, ?_, rfl, (Cursor.spans_next closes).remaining closes⟩
          simp [closes]
      | true =>
          have closes : (skipBlanks c).after = closeTag true ++ rest := after
          refine ⟨[], (skipBlanks c).advance 2, ?_, rfl, (Cursor.spans_advance closes).remaining closes⟩
          simp [closes, closeTag]
  | a :: items, fuel + 1, attributes, structurals, c, enough, canonical, after => by
      obtain ⟨written, own⟩ := isWritten_of_isCanonical (canonical a (by simp))
      have others : ∀ a ∈ items, a.isCanonical = true := fun b mem => canonical b (by simp [mem])
      rw [← skipBlanks_after, List.flatMap_cons, List.append_assoc] at after
      obtain ⟨l, cs, letter, first, spelled⟩ := dropWhile_source written
        (items.flatMap (·.source) ++ (closeTag selfClosing ++ rest))
      rw [first] at after
      obtain ⟨ends, alone⟩ := notNext_sources
        (fun b mem => (isWritten_of_isCanonical (others b mem)).1) selfClosing rest
      obtain ⟨r, means, same⟩ := classifyAttribute_written own (skipBlanks c)
      obtain ⟨d, read, behind⟩ := readAttribute_written written
        (after.trans spelled) ends alone means
      have shorter : d.after.length < fuel := by
        obtain ⟨gap, -, skipped, -⟩ := skipBlanks_spans c
        obtain ⟨_, _, -, -, -, -, x, visible, reached⟩ := (readAttribute_reads (skipBlanks c)).ok read
        have := skipped.length
        have := reached.shorter visible
        omega
      have next (attributes structurals) :=
        readAttributes_written tag start attributes structurals shorter others behind
      unfold readAttributes
      dsimp only
      obtain ⟨-, -, noClose, noSlash⟩ := visible_of_isAttributeName letter
      split
      · rename_i empty
        rw [after] at empty
        cases empty
      · rename_i closes
        rw [after] at closes
        cases closes
        exact absurd rfl noSlash
      · rename_i closes
        rw [after] at closes
        cases closes
        exact absurd rfl noClose
      · rw [read]
        cases r with
        | plain a' =>
            obtain ⟨rs, e, done, sames, stops⟩ := next (a' :: attributes) structurals
            refine ⟨.plain a' :: rs, e, ?_, by simp [same, sames], stops⟩
            simpa [ReadAttribute.plain?, ReadAttribute.structural?] using done
        | structural name value p =>
            obtain ⟨rs, e, done, sames, stops⟩ := next attributes ((name, value, p) :: structurals)
            refine ⟨.structural name value p :: rs, e, ?_, by simp [same, sames], stops⟩
            simpa [ReadAttribute.plain?, ReadAttribute.structural?] using done

theorem skipBlanks_of_notNext (h : NotNext isBlank c.after) : skipBlanks c = c := by
  have := takeWhile_append_of_notNext (show ([] : List Char).all isBlank = true from rfl) h
  rw [List.nil_append] at this
  rw [skipBlanks, this]
  rfl

theorem IsTagName.exists_letter {name : List Char} (h : IsTagName name) :
    ∃ l cs, name = l :: cs ∧ isAsciiLetter l = true := by
  cases name with
  | nil => cases h
  | cons l cs => exact ⟨l, cs, rfl, h.1⟩

theorem tagName?_append {name more : List Char} (named : IsTagName name) (ends : NotNext isTagPart more) :
    tagName? (name ++ more) = some name := by
  cases name with
  | nil => cases named
  | cons l name =>
      obtain ⟨letter, parts⟩ := named
      simp [tagName?, letter, takeWhile_append_of_notNext parts ends]

/-- What follows the name of a start tag is no part of it. -/
theorem notNext_isTagPart (items : List ReadAttribute) (selfClosing : Bool) (rest : List Char) :
    NotNext isTagPart (items.flatMap (·.source) ++ (closeTag selfClosing ++ rest)) := by
  cases items with
  | nil => cases selfClosing <;> rintro _ ⟨⟩ <;> decide
  | cons a items => rintro _ ⟨⟩; decide

/-- A start tag is read with what stands in it, up to places. -/
theorem readStartTag_written {tag : String} {attributes : List Attribute}
    {structurals : List (String × String × Position)} {selfClosing : Bool} {rest : List Char}
    {bound : Nat} (enough : c.after.length < bound) (named : IsTagName tag.toList)
    (few : structurals.length ≤ 1)
    (canonical : ∀ a ∈ startItems structurals attributes, a.isCanonical = true)
    (after : c.after = '<' :: (tag.toList ++
      ((startItems structurals attributes).flatMap (·.source) ++ (closeTag selfClosing ++ rest)))) :
    ∃ t, readStartTag bound c = .ok (tag, t) ∧ t.selfClosing = selfClosing ∧ t.rest.after = rest ∧
      t.attributes.map (·.unplaced) = attributes.map (·.unplaced) ∧
      t.structurals.map unplacedDirective = structurals.map unplacedDirective := by
  have found := tagName?_append named (notNext_isTagPart (startItems structurals attributes) selfClosing rest)
  have behind : (c.advance (tag.toList.length + 1)).after =
      (startItems structurals attributes).flatMap (·.source) ++ (closeTag selfClosing ++ rest) :=
    (Cursor.spans_advance (x := '<' :: tag.toList) after).remaining after
  have shorter : (c.advance (tag.toList.length + 1)).after.length < bound :=
    Nat.lt_of_le_of_lt (Cursor.length_advance_le ..) enough
  obtain ⟨rs, d, read, same, stops⟩ :=
    readAttributes_written tag c [] [] shorter canonical (congrArg _ behind)
  have sameAttributes : (rs.filterMap (·.plain?)).map (·.unplaced) = attributes.map (·.unplaced) := by
    rw [filterMap_plain?, same, ← filterMap_plain?, startItems_plain?]
  have sameStructurals :
      (rs.filterMap (·.structural?)).map unplacedDirective = structurals.map unplacedDirective := by
    rw [filterMap_structural?, same, ← filterMap_structural?, startItems_structural?]
  refine ⟨⟨rs.filterMap (·.plain?), rs.filterMap (·.structural?), selfClosing, d⟩, ?_, rfl, stops,
    sameAttributes, sameStructurals⟩
  have few' : (rs.filterMap (·.structural?)).length ≤ 1 := by
    rw [← List.length_map unplacedDirective, sameStructurals, List.length_map]
    exact few
  unfold readStartTag
  rw [after, show ∀ cs, ('<' :: cs).drop 1 = cs from fun _ => rfl, found]
  simp only [String.ofList_toList]
  rw [read]
  exact if_neg (Nat.not_lt.mpr few')

/-- An end tag is read to its end. -/
theorem readEndTag?_endTag {tag : String} {rest : List Char} (named : IsTagName tag.toList)
    (after : c.after = endTag tag ++ rest) : ∃ d, readEndTag? c = some (tag, d) ∧ d.after = rest := by
  have split : c.after = ['<', '/'] ++ (tag.toList ++ '>' :: rest) := by simp [after, endTag]
  have first : (c.advance 2).after = tag.toList ++ '>' :: rest :=
    (Cursor.spans_advance split).remaining split
  have start : skipBlanks (c.advance 2) = c.advance 2 := by
    obtain ⟨l, cs, letters, letter⟩ := named.exists_letter
    refine skipBlanks_of_notNext ?_
    rw [first, letters]
    rintro _ ⟨⟩
    exact visible_of_isAsciiLetter letter
  have found : tagName? (c.advance 2).after = some tag.toList := by
    rw [first]
    exact tagName?_append named (by rintro _ ⟨⟩; decide)
  have second : ((c.advance 2).advance tag.toList.length).after = '>' :: rest :=
    (Cursor.spans_advance first).remaining first
  have stop := skipBlanks_of_notNext (c := (c.advance 2).advance tag.toList.length)
    (by rw [second]; rintro _ ⟨⟩; rfl)
  refine ⟨_, ?_, (Cursor.spans_next second).remaining second⟩
  simp [readEndTag?, start, found, stop, second]

/-! ### Text and interpolations -/

theorem interpolationLength?_of_plain {inside rest : List Char}
    (plain : inside.all (fun c => !Script.isQuote c && c != '\x7d') = true) (n : Nat) :
    interpolationLength? none n (inside ++ (closeBraces ++ rest)) = some (n + inside.length) := by
  induction inside generalizing n with
  | nil => simp [interpolationLength?, closeBraces, Script.isQuote]
  | cons a inside ih =>
      simp only [List.all_cons, Bool.and_eq_true, Bool.not_eq_true', bne_iff_ne] at plain
      rw [List.cons_append, interpolationLength?]
      simp [plain, ih, Nat.add_comm, Nat.add_left_comm]

/-- An interpolation is read to its closing braces. -/
theorem readInterpolation_source {expression : String} {value : BoundValue} {p : Position}
    {rest : List Char}
    (canonical : (Node.interpolation expression value p).isCanonical = true)
    (after : c.after = (Node.interpolation expression value p).source [] ++ rest) :
    ∃ node d, readInterpolation c = .ok (node, d) ∧
      node.unplaced = (Node.interpolation expression value p).unplaced ∧ d.after = rest := by
  simp only [Node.isCanonical, Bool.and_eq_true, bne_iff_ne, beq_iff_eq, List.all_eq_true,
    Bool.not_eq_true'] at canonical
  obtain ⟨⟨⟨visible, trimmed⟩, plain⟩, same⟩ := canonical
  have split :
      c.after = openBraces ++ ((' ' :: (expression.toList ++ [' '])) ++ (closeBraces ++ rest)) := by
    simp [after, Node.source]
  generalize inside : ' ' :: (expression.toList ++ [' ']) = body at split
  have length : interpolationLength? none 0 (body ++ (closeBraces ++ rest)) = some body.length := by
    have : body.all (fun c => !Script.isQuote c && c != '\x7d') = true := by
      rw [← inside]
      refine List.all_eq_true.mpr fun a mem => ?_
      have : a = ' ' ∨ a ∈ expression.toList := by simpa [or_comm, or_assoc] using mem
      obtain rfl | mem := this
      · decide
      · simp [plain a mem]
    simpa using interpolationLength?_of_plain this 0
  have own : trim (String.ofList body) = expression := by
    rw [← inside, trim, String.toList_ofList, stripWith_between rfl rfl]
    exact trimmed
  have drop : c.after.drop 2 = body ++ (closeBraces ++ rest) := by rw [split]; rfl
  refine ⟨.interpolation expression (parseBoundValue expression (some (positionOf c))) (positionOf c),
    c.advance (body.length + 4), ?_, ?_, ?_⟩
  · unfold readInterpolation
    rw [drop, length]
    simp [own, visible]
  · simp [Node.unplaced, parseBoundValue_unplaced, same]
  · have split : c.after = (openBraces ++ (body ++ closeBraces)) ++ rest := by simp [split]
    have := (Cursor.spans_advance split).remaining split
    simpa [openBraces, closeBraces] using this

/-- Passing over characters that open nothing. -/
theorem readText_plain (nodes : List Node) (start : Cursor) :
    ∀ {x rest : List Char} {fuel : Nat} {c : Cursor}, x.all (fun c => c != '<' && c != '\x7b') = true →
      c.after = x ++ rest → c.after.length < fuel →
      ∃ fuel' d, c.Spans x d ∧ d.after.length < fuel' ∧
        readText fuel nodes start c = readText fuel' nodes start d
  | [], _, fuel, c, _, _, enough => ⟨fuel, c, .refl c, enough, rfl⟩
  | _, _, 0, _, _, _, enough => by omega
  | a :: x, rest, fuel + 1, c, plain, after, enough => by
      simp only [List.all_cons, Bool.and_eq_true, bne_iff_ne] at plain
      obtain ⟨⟨noAngle, noBrace⟩, others⟩ := plain
      have step := Cursor.spans_next after
      have next := step.remaining after
      have shorter : c.next.after.length < fuel := by
        have := step.shorter (by simp)
        omega
      obtain ⟨fuel', d, reached, enough', same⟩ := readText_plain nodes start others next shorter
      refine ⟨fuel', d, step.trans reached, enough', ?_⟩
      rw [readText, if_neg (by simp [after]), if_neg, if_neg, same]
      · simp [after, endsText, opensElement, startsWith, dropLead?, noAngle]
      · simp [after, opensInterpolation, startsWith, dropLead?, noBrace]

/-- Nothing more belongs to a run of text. -/
def EndsRun (rest : List Char) : Prop :=
  rest = [] ∨ endsText rest = true

theorem exists_cons_of_endsText {cs : List Char} (h : endsText cs = true) : ∃ rest, cs = '<' :: rest := by
  simp only [endsText, Bool.or_eq_true] at h
  obtain (h | h) | h := h
  · unfold opensElement at h
    split at h
    · exact ⟨_, rfl⟩
    · cases h
  · obtain ⟨rest, rfl⟩ := startsWith_iff.mp h
    exact ⟨_, rfl⟩
  · obtain ⟨rest, rfl⟩ := startsWith_iff.mp h
    exact ⟨_, rfl⟩

theorem readText_ends {fuel : Nat} {nodes : List Node} {start c : Cursor} (enough : c.after.length < fuel)
    (ends : EndsRun c.after) :
    readText fuel nodes start c = .ok (nodes.reverse ++ textBetween nodes.head? start c, c) := by
  have closed : nodes.reverse ++ textBetween nodes.head? start c =
      (textBetween nodes.head? start c ++ nodes).reverse := by
    rw [List.reverse_append, textBetween_reverse]
  rw [closed]
  cases fuel with
  | zero => omega
  | succ fuel =>
      rw [readText]
      obtain empty | ends := ends
      · rw [if_pos (by simp [empty])]
      · obtain ⟨rest, after⟩ := exists_cons_of_endsText ends
        rw [if_neg (by simp [after]), if_neg (by simp [after, opensInterpolation, startsWith, dropLead?]),
          if_pos ends]

theorem textBetween_self (previous : Option Node) (c : Cursor) : textBetween previous c c = [] := by
  simp [textBetween, separatesInline]

theorem textBetween_text {previous : Option Node} {text : String} {p : Position}
    (canonical : (Node.text text p).isCanonical = true) (spans : start.Spans text.toList c) :
    textBetween previous start c = [.text text (positionOf start)] := by
  simp only [Node.isCanonical, Bool.and_eq_true, Bool.not_eq_true', beq_iff_eq] at canonical
  obtain ⟨⟨shows, collapsed⟩, -⟩ := canonical
  have raw : start.after.take (c.offset - start.offset) = text.toList := by
    rw [spans.offset, spans.after, Nat.add_sub_cancel_left, List.take_left]
  simp only [isBlankText] at shows
  rw [collapse] at collapsed
  simp [textBetween, raw, shows, collapsed]

/-- The markup of whatever is neither a text nor an interpolation opens an element. -/
theorem opensElement_source {n : Node} (canonical : n.isCanonical = true) (text : n.isText = false)
    (interpolation : n.isInterpolation = false) (rest : List Char) :
    opensElement (n.source [] ++ rest) = true := by
  obtain ⟨tag, attributes, selfClosing, children, structurals, parts, -, -, -, source⟩ :=
    exists_parts canonical text interpolation
  obtain ⟨l, cs, letters, letter⟩ := parts.named.exists_letter
  simp [source, elementSource, letters, opensElement, isLetter_of_isAsciiLetter letter]

/-- Texts and interpolations in a row are read up to what follows them. -/
theorem readText_sources {tail : List Char} (ends : EndsRun tail) :
    ∀ {ns : List Node} {fuel : Nat} (nodes : List Node) (start : Cursor) {c : Cursor},
      areCanonical ns = true → c.after.length < fuel → c.after = sources ns ++ tail →
      (ns.head?.any (·.isText) = true → start = c) →
      ∃ inl ms result d, ns = inl ++ ms ∧ areCanonical ms = true ∧
        readText fuel nodes start c =
          .ok (nodes.reverse ++ (textBetween nodes.head? start c ++ result), d) ∧
        unplaceAll result = unplaceAll inl ∧ d.after = sources ms ++ tail
  | [], fuel, nodes, start, c, canonical, enough, after, _ => by
      refine ⟨[], [], [], c, rfl, canonical, ?_, rfl, after⟩
      rw [List.append_nil]
      exact readText_ends enough (by rw [after]; exact ends)
  | n :: ns, fuel, nodes, start, c, canonical, enough, after, fresh => by
      have whole := canonical
      rw [areCanonical, Bool.and_eq_true, Bool.and_eq_true] at canonical
      obtain ⟨⟨own, apart⟩, others⟩ := canonical
      rw [sources, List.append_assoc] at after
      cases n with
      | text t p =>
          -- Nothing is pending in front of a text, so the run that it opens is the text alone.
          obtain rfl := fresh rfl
          have letters : t.toList.all (fun c => c != '<' && c != '\x7b') = true := by
            rw [Node.isCanonical, Bool.and_eq_true] at own
            exact own.2
          obtain ⟨fuel', d, reached, enough', same⟩ :=
            readText_plain nodes start letters after enough
          obtain ⟨inl, ms, result, e, rfl, rest, read, equal, stops⟩ :=
            readText_sources ends nodes start others enough' (reached.remaining after)
              (fun first => by rw [first] at apart; cases apart)
          refine ⟨.text t p :: inl, ms, .text t (positionOf start) :: result, e, rfl, rest, ?_, ?_,
            stops⟩
          · rw [same, read, textBetween_text own reached, textBetween_self]
            rfl
          · simp [unplaceAll, Node.unplaced, equal]
      | interpolation expression value p =>
          obtain ⟨node, d, read, equal, behind⟩ := readInterpolation_source own after
          have opens : opensInterpolation c.after = true := startsWith_iff.mpr ⟨_, after⟩
          cases fuel with
          | zero => omega
          | succ fuel =>
              have shorter : d.after.length < fuel := by
                obtain ⟨-, x, visible, reached⟩ := (readInterpolation_reads opens).ok read
                have := reached.shorter visible
                omega
              obtain ⟨inl, ms, result, e, rfl, rest, done, equals, stops⟩ :=
                readText_sources ends (node :: textBetween nodes.head? start c ++ nodes) d others
                  shorter behind (fun _ => rfl)
              refine ⟨.interpolation expression value p :: inl, ms, node :: result, e, rfl, rest, ?_,
                ?_, stops⟩
              · rw [readText, if_neg (by simp [after, Node.source, openBraces]), if_pos opens, read]
                dsimp only
                rw [done, textBetween_self]
                simp [textBetween_reverse]
              · simp [unplaceAll, equal, equals]
      | _ =>
          -- An element ends the row, and is left to the caller.
          have opens := opensElement_source own rfl rfl (sources ns ++ tail)
          refine ⟨[], _ :: ns, [], c, rfl, whole, ?_, rfl, ?_⟩
          · rw [List.append_nil]
            exact readText_ends enough (.inr (by simp [endsText, after, opens]))
          · rw [after, sources, List.append_assoc]

/-! ### Trees -/

/-- What the content of an element ends with: its end tag, and outside of all elements the text ends. -/
def ClosedBy : Option (String × Cursor) → List Char → List Char → Prop
  | none, close, rest => close = [] ∧ rest = []
  | some (tag, _), close, _ => IsTagName tag.toList ∧ close = endTag tag

theorem ClosedBy.endsRun {parent : Option (String × Cursor)} {close rest : List Char}
    (h : ClosedBy parent close rest) : EndsRun (close ++ rest) := by
  cases parent with
  | none =>
      obtain ⟨rfl, rfl⟩ := h
      exact .inl rfl
  | some own =>
      obtain ⟨-, rfl⟩ := h
      exact .inr (by simp [endsText, endTag, startsWith, dropLead?])

/-- Where the content of an element ends, its end tag is read. -/
theorem readNodes_closed (fuel : Nat) {parent : Option (String × Cursor)} (nodes : List Node)
    {close rest : List Char} (closed : ClosedBy parent close rest) (after : c.after = close ++ rest) :
    ∃ d, readNodes (fuel + 1) parent nodes c = .ok (nodes.reverse, d) ∧ d.after = rest := by
  cases parent with
  | none =>
      obtain ⟨rfl, rfl⟩ := closed
      refine ⟨c, ?_, after⟩
      rw [readNodes]
      simp [show c.after = [] from after]
  | some own =>
      obtain ⟨named, rfl⟩ := closed
      obtain ⟨d, read, behind⟩ := readEndTag?_endTag named after
      refine ⟨d, ?_, behind⟩
      have after : c.after = '<' :: '/' :: (own.1.toList ++ '>' :: rest) := by simp [after, endTag]
      unfold readNodes
      split
      · rename_i empty
        rw [after] at empty
        cases empty
      · rw [if_neg (by simp [after, startsWith, dropLead?]),
          if_pos (by simp [after, startsWith, dropLead?]), read]
        simp

/-- The markup of a text or an interpolation opens nothing else. -/
theorem endsText_source {n : Node} (canonical : n.isCanonical = true)
    (inline : n.isText = true ∨ n.isInterpolation = true) (rest : List Char) :
    n.source [] ++ rest ≠ [] ∧ endsText (n.source [] ++ rest) = false := by
  have opens : ∃ a cs, n.source [] ++ rest = a :: cs ∧ a ≠ '<' := by
    cases n with
    | text t p =>
        simp only [Node.isCanonical, Bool.and_eq_true, Bool.not_eq_true', List.all_eq_true, bne_iff_ne]
          at canonical
        obtain ⟨⟨shows, -⟩, letters⟩ := canonical
        cases known : t.toList with
        | nil => simp [isBlankText, known] at shows
        | cons a cs =>
            exact ⟨a, cs ++ rest, by simp [Node.source, known], (letters a (by simp [known])).1⟩
    | interpolation => exact ⟨'\x7b', _, rfl, by decide⟩
    | _ => simp [Node.isText, Node.isInterpolation] at inline
  obtain ⟨a, cs, after, other⟩ := opens
  rw [after]
  refine ⟨by simp, ?_⟩
  cases quiet : endsText (a :: cs) with
  | false => rfl
  | true =>
      obtain ⟨_, same⟩ := exists_cons_of_endsText quiet
      cases same
      exact absurd rfl other

/-- The markup of canonical nodes is read as these nodes, within a number of rounds. -/
def ReadsSources (fuel : Nat) : Prop :=
  ∀ (parent : Option (String × Cursor)) (nodes ns : List Node) (c : Cursor) (close rest : List Char),
    c.after.length < fuel → areCanonical ns = true → ClosedBy parent close rest →
    c.after = sources ns ++ (close ++ rest) →
    ∃ result d, readNodes fuel parent nodes c = .ok (nodes.reverse ++ result, d) ∧
      unplaceAll result = unplaceAll ns ∧ d.after = rest

/-- What opens no markup is read as a run of texts and interpolations. -/
theorem readNodes_of_readText {fuel : Nat} (parent : Option (String × Cursor)) (nodes : List Node)
    {texts : List Node} {d : Cursor} (inside : c.after ≠ []) (textual : endsText c.after = false)
    (read : readText (fuel + 1) [] c c = .ok (texts, d)) :
    readNodes (fuel + 1) parent nodes c = readNodes fuel parent (texts.reverse ++ nodes) d := by
  simp only [endsText, Bool.or_eq_false_iff] at textual
  conv => lhs; unfold readNodes
  split
  · rename_i empty
    exact absurd empty inside
  · rw [if_neg (by simp [textual]), if_neg (by simp [textual]), if_neg (by simp [textual]), read]

/-- One round over texts and interpolations. -/
theorem readNodes_inline {fuel : Nat} (parent : Option (String × Cursor)) (nodes : List Node)
    {ns : List Node} {n : Node} {tail : List Char} (ends : EndsRun tail) (enough : c.after.length < fuel + 1)
    (canonical : areCanonical (n :: ns) = true)
    (inline : n.isText = true ∨ n.isInterpolation = true) (after : c.after = sources (n :: ns) ++ tail) :
    ∃ inl ms result d, n :: ns = inl ++ ms ∧ areCanonical ms = true ∧
      readNodes (fuel + 1) parent nodes c = readNodes fuel parent (result.reverse ++ nodes) d ∧
      unplaceAll result = unplaceAll inl ∧ d.after = sources ms ++ tail ∧ d.after.length < fuel := by
  have own : n.isCanonical = true := by
    rw [areCanonical, Bool.and_eq_true, Bool.and_eq_true] at canonical
    exact canonical.1.1
  obtain ⟨inside, textual⟩ := endsText_source own inline (sources ns ++ tail)
  rw [← List.append_assoc, ← sources, ← after] at inside textual
  obtain ⟨inl, ms, result, d, same, rest, read, equal, behind⟩ :=
    readText_sources ends [] c canonical enough after (fun _ => rfl)
  rw [textBetween_self] at read
  have shorter : d.after.length < fuel := by
    obtain ⟨_, x, -, -, reached, ends⟩ :=
      (readText_reads [] enough (.refl c) trivial).ok read
    have := reached.shorter (visible_of_endsText reached inside textual ends)
    omega
  exact ⟨inl, ms, result, d, same, rest, readNodes_of_readText parent nodes inside textual read, equal, behind,
    shorter⟩

theorem readNodes_of_opensElement {fuel : Nat} {parent : Option (String × Cursor)} {nodes : List Node}
    {tag : String} {t : StartTag} (opens : opensElement c.after = true)
    (started : readStartTag (fuel + 1) c = .ok (tag, t)) :
    readNodes (fuel + 1) parent nodes c =
      if t.selfClosing || voidElements.contains (toLower tag) then
        readNodes fuel parent (buildElement tag t [] (positionOf c) :: nodes) t.rest
      else
        match readNodes fuel (some (tag, c)) [] t.rest with
        | .error e => .error e
        | .ok (children, after) =>
            readNodes fuel parent (buildElement tag t children (positionOf c) :: nodes) after := by
  obtain ⟨l, rest, after, letter⟩ := exists_letter_of_opensElement opens
  have noComment : l ≠ '!' := by rintro rfl; cases letter
  have noEnd : l ≠ '/' := by rintro rfl; cases letter
  conv => lhs; unfold readNodes
  split
  · rename_i empty
    rw [after] at empty
    cases empty
  · rw [if_neg (by simp [after, startsWith, dropLead?, noComment]),
      if_neg (by simp [after, startsWith, dropLead?, noEnd]), if_pos opens]
    generalize readStartTag (fuel + 1) c = read at started
    subst started
    rfl

/-- One round over an element. -/
theorem readNodes_element {fuel : Nat} (parent : Option (String × Cursor)) (nodes : List Node) {n : Node}
    {tail : List Char} (within : ReadsSources fuel) (enough : c.after.length < fuel + 1)
    (canonical : n.isCanonical = true) (text : n.isText = false) (interpolation : n.isInterpolation = false)
    (after : c.after = n.source [] ++ tail) :
    ∃ node d, readNodes (fuel + 1) parent nodes c = readNodes fuel parent (node :: nodes) d ∧
      node.unplaced = n.unplaced ∧ d.after = tail ∧ d.after.length < fuel := by
  have opens : opensElement c.after = true := by
    rw [after]
    exact opensElement_source canonical text interpolation tail
  obtain ⟨tag, attributes, selfClosing, children, structurals, parts, few, inside, hosts, source⟩ :=
    exists_parts canonical text interpolation
  have split : c.after = '<' :: (tag.toList ++ ((startItems structurals attributes).flatMap (·.source) ++
      (closeTag selfClosing ++
        ((if IsChildless tag selfClosing then [] else sources children ++ endTag tag) ++ tail)))) := by
    rw [after, source, elementSource]
    simp
  obtain ⟨t, started, rfl, behind, sameAttributes, sameStructurals⟩ :=
    readStartTag_written enough parts.named few inside split
  obtain ⟨-, few', x, visible, reached⟩ := (readStartTag_reads _ opens).ok started
  have shorter : t.rest.after.length < c.after.length := reached.shorter visible
  have built (children' : List Node) (equal : unplaceAll children' = unplaceAll children) :
      (buildElement tag t children' (positionOf c)).unplaced = n.unplaced :=
    (buildElement_hosts tag children' (positionOf c) few').unplaced_congr hosts sameAttributes equal
      sameStructurals
  rw [readNodes_of_opensElement opens started]
  by_cases childless : IsChildless tag t.selfClosing
  · rw [if_pos childless] at behind
    rw [if_pos (by simpa [IsChildless] using childless)]
    exact ⟨_, t.rest, rfl, built [] (by rw [parts.childless childless]), behind, by omega⟩
  · rw [if_neg childless] at behind
    rw [if_neg (by simpa [IsChildless] using childless)]
    obtain ⟨children', e, done, equal, stops⟩ := within (some (tag, c)) [] children t.rest
      (endTag tag) tail (by omega) parts.content ⟨parts.named, rfl⟩ (by rw [behind, List.append_assoc])
    rw [done]
    refine ⟨_, e, rfl, built children' equal, stops, ?_⟩
    rw [behind] at shorter
    rw [stops]
    simp only [List.length_append] at shorter
    omega

/-- The markup of canonical nodes is read as these nodes. -/
theorem readNodes_sources : ∀ fuel : Nat, ReadsSources fuel
  | 0, _, _, _, _, _, _, enough, _, _, _ => by omega
  | fuel + 1, parent, nodes, ns, c, close, rest, enough, canonical, closed, after => by
      cases ns with
      | nil =>
          obtain ⟨d, read, behind⟩ := readNodes_closed fuel nodes closed after
          exact ⟨[], d, by rw [read, List.append_nil], rfl, behind⟩
      | cons n ns =>
          by_cases inline : n.isText = true ∨ n.isInterpolation = true
          · obtain ⟨inl, ms, result, d, same, canonical, read, equal, behind, shorter⟩ :=
              readNodes_inline parent nodes closed.endsRun enough canonical inline after
            obtain ⟨more, e, done, equals, stops⟩ := readNodes_sources fuel parent
              (result.reverse ++ nodes) ms d close rest shorter canonical closed behind
            refine ⟨result ++ more, e, by rw [read, done]; simp, ?_, stops⟩
            rw [same, unplaceAll_append, unplaceAll_append, equal, equals]
          · rw [not_or] at inline
            rw [areCanonical, Bool.and_eq_true, Bool.and_eq_true] at canonical
            rw [sources, List.append_assoc] at after
            obtain ⟨node, d, read, equal, behind, shorter⟩ :=
              readNodes_element parent nodes (readNodes_sources fuel) enough
                canonical.1.1 (by simpa using inline.1) (by simpa using inline.2) after
            obtain ⟨more, e, done, equals, stops⟩ := readNodes_sources fuel parent
              (node :: nodes) ns d close rest shorter canonical.2 closed behind
            refine ⟨node :: more, e, by rw [read, done]; simp, ?_, stops⟩
            rw [unplaceAll, unplaceAll, equal, equals]

/-- Every canonical node shows in its markup. -/
theorem shows_source {n : Node} (canonical : n.isCanonical = true) : (n.source []).all isBlank = false := by
  cases n with
  | text t p =>
      simp only [Node.isCanonical, Bool.and_eq_true, Bool.not_eq_true'] at canonical
      exact canonical.1.1
  | interpolation => rfl
  | _ =>
      obtain ⟨_, _, _, _, _, _, -, -, -, source⟩ := exists_parts canonical rfl rfl
      rw [source]
      rfl

/-- The canonical markup of a tree is read as the tree, up to places. -/
theorem parse_sources {ns : List Node} (canonical : areCanonical ns = true) :
    ∃ nodes, parse (String.ofList (sources ns)) = .ok nodes ∧ unplaceAll nodes = unplaceAll ns := by
  unfold parse parseWithin
  rw [String.toList_ofList]
  split
  · rename_i blank
    cases ns with
    | nil => exact ⟨[], rfl, rfl⟩
    | cons n ns =>
        rw [areCanonical, Bool.and_eq_true, Bool.and_eq_true] at canonical
        simp [isBlankText, sources, shows_source canonical.1.1] at blank
  · obtain ⟨nodes, d, read, same, -⟩ := readNodes_sources ((sources ns).length + 1) none [] ns
      (.start (sources ns)) [] [] (Nat.lt_succ_self _) canonical ⟨rfl, rfl⟩ (by simp [Cursor.start])
    rw [read]
    exact ⟨nodes, by simp, same⟩

/-- A list with a loop, bindings of each kind and a child component. -/
def listMarkup : List Node :=
  [.element "ul" [.reference "list" none {}, .event "focus" "enter()" {} false]
    [.structural "ngFor" "let x of xs" (parseClauses "ngFor" "let x of xs")
        (.element "li" [.property "title" "x | upper" (.pipe "upper" (.text "x") [] none) {} false]
          [.text "Item " {}, .interpolation "x" (.text "x") {}, .element "br" [] [] {} false none]
          {} false none)
        {} none,
      .container "ng-content" [.static "select" (some "a") {}] [] {}]
    {} false none,
   .element "app-row" [.twoWay "row" "r" {}, .static "wide" none {}] [] {} true none]

example : String.ofList (sources listMarkup) =
    "<ul #list (focus)=\"enter()\"><li *ngFor=\"let x of xs\" [title]=\"x | upper\">" ++
      "Item \x7b\x7b x \x7d\x7d<br></li><ng-content select=\"a\"></ng-content></ul>" ++
      "<app-row [(row)]=\"r\" wide/>" := by
  decide +kernel

theorem parse_sources_listMarkup : areCanonical listMarkup = true ∧
    ∃ nodes, parse (String.ofList (sources listMarkup)) = .ok nodes ∧
      unplaceAll nodes = unplaceAll listMarkup :=
  have canonical : areCanonical listMarkup = true := by decide +kernel
  ⟨canonical, parse_sources canonical⟩

end ReactMigration.Template
