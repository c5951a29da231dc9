import ReactMigration.Proofs.MarkupRefusal
import ReactMigration.Proofs.Outcome

/-!
Where the nodes and attributes of a template stand.

Every position in the tree is that of a character of the text, and points at what the node begins with.  Nodes
follow each other in document order, and the attributes of an element stand between its name and its content.
-/

namespace ReactMigration.Template

open ReactMigration.Text

/-! ### Positions in a tree -/

/-- The position of a character of the text. -/
structure IsPositionIn (cs : List Char) (p : Position) : Prop where
  inside : p.offset < cs.length
  line : p.line = lineAt cs p.offset
  column : p.column = columnAt cs p.offset

def BoundValue.positions : BoundValue → List Position
  | .text _ => []
  | .pipe _ input _ p => input.positions ++ p.toList

/-- The position of an attribute, and those noted at the pipes of its value. -/
def Attribute.positions : Attribute → List Position
  | .property _ _ value p _ => p :: value.positions
  | .directive _ _ value p _ _ => p :: value.toList.flatMap BoundValue.positions
  | a => [a.position]

def Node.attributes : Node → List Attribute
  | .element _ attributes _ _ _ _ => attributes
  | .container _ attributes _ _ => attributes
  | _ => []

def Node.children : Node → List Node
  | .element _ _ children _ _ _ => children
  | .container _ _ children _ => children
  | _ => []

/-- The positions that a node holds itself, those of its children apart. -/
def Node.positions : Node → List Position
  | .interpolation _ value p => p :: value.positions
  | n => n.position :: n.attributes.flatMap Attribute.positions

/-- What the text goes on with at the position of a node. -/
def Node.opening : Node → List Char
  | .element tag _ _ _ _ _ => '<' :: tag.toList
  | .container kind _ _ _ => '<' :: kind.toList
  | .interpolation _ _ _ => openBraces
  | _ => []

def Node.isStructural : Node → Bool
  | .structural _ _ _ _ _ _ => true
  | _ => false

/-- Where a node starts; a structural directive starts with its element. -/
def Node.start : Node → Nat
  | .structural _ _ _ child _ _ => child.start
  | n => n.position.offset

mutual

/-- A node and everything in it, in document order. -/
def Node.everything : Node → List Node
  | .element tag attributes children p selfClosing component =>
      .element tag attributes children p selfClosing component :: everythingIn children
  | .text text p => [.text text p]
  | .interpolation expression value p => [.interpolation expression value p]
  | .structural name expression clauses child p directive =>
      .structural name expression clauses child p directive :: child.everything
  | .container kind attributes children p => .container kind attributes children p :: everythingIn children

def everythingIn : List Node → List Node
  | [] => []
  | n :: ns => n.everything ++ everythingIn ns

end

/-- Between the name of an element and its first child. -/
def Node.Holds (n : Node) (offset : Nat) : Prop :=
  n.position.offset < offset ∧ ∀ child ∈ n.children.head?, offset < child.start

/-- The attributes of a node stand in order and before its content; those of an element with a structural directive
stand apart from it. -/
def Node.Ordered : Node → Prop
  | .structural _ _ _ child p _ => child.Holds p.offset ∧ ∀ a ∈ child.attributes, a.position.offset ≠ p.offset
  | n => n.attributes.Pairwise (·.position.offset < ·.position.offset) ∧
      ∀ a ∈ n.attributes, n.Holds a.position.offset

/-- The offsets of nodes in document order, a structural directive counted by its element. -/
def offsets (ns : List Node) : List Nat :=
  ((everythingIn ns).filter (!·.isStructural)).map (·.position.offset)

/-- The nodes stand in the text where their positions say, between two offsets. -/
structure Placed (cs : List Char) (lo hi : Nat) (ns : List Node) : Prop where
  positions : ∀ n ∈ everythingIn ns, ∀ p ∈ n.positions, IsPositionIn cs p
  openings : ∀ n ∈ everythingIn ns, n.opening <+: cs.drop n.position.offset
  attributes : ∀ n ∈ everythingIn ns, n.Ordered
  increasing : (offsets ns).Pairwise (· < ·)
  bounds : ∀ o ∈ offsets ns, lo ≤ o ∧ o < hi

variable {cs x : List Char} {c d start : Cursor} {lo mid hi : Nat} {ns ms : List Node} {n : Node} {p : Position}

theorem everythingIn_append (ns ms : List Node) : everythingIn (ns ++ ms) = everythingIn ns ++ everythingIn ms := by
  induction ns with
  | nil => rfl
  | cons n ns ih => rw [List.cons_append, everythingIn, ih, everythingIn, List.append_assoc]

theorem offsets_append (ns ms : List Node) : offsets (ns ++ ms) = offsets ns ++ offsets ms := by
  rw [offsets, everythingIn_append, List.filter_append, List.map_append, offsets, offsets]

namespace Placed

theorem nil (cs : List Char) (lo hi : Nat) : Placed cs lo hi [] := by
  constructor <;> simp [everythingIn, offsets]

theorem mono {lo' hi' : Nat} (h : Placed cs lo hi ns) (lower : lo' ≤ lo) (upper : hi ≤ hi') : Placed cs lo' hi' ns := by
  refine ⟨h.positions, h.openings, h.attributes, h.increasing, ?_⟩
  intro o mem
  obtain ⟨above, below⟩ := h.bounds o mem
  omega

theorem append (h : Placed cs lo mid ns) (h' : Placed cs mid hi ms) (lower : lo ≤ mid) (upper : mid ≤ hi) :
    Placed cs lo hi (ns ++ ms) := by
  have both {P : Node → Prop} (first : ∀ n ∈ everythingIn ns, P n) (second : ∀ n ∈ everythingIn ms, P n) :
      ∀ n ∈ everythingIn (ns ++ ms), P n := by
    intro n mem
    rw [everythingIn_append, List.mem_append] at mem
    exact mem.elim (first n) (second n)
  refine ⟨both h.positions h'.positions, both h.openings h'.openings, both h.attributes h'.attributes, ?_, ?_⟩
  · rw [offsets_append, List.pairwise_append]
    refine ⟨h.increasing, h'.increasing, ?_⟩
    intro o mem o' mem'
    have := h.bounds o mem
    have := h'.bounds o' mem'
    omega
  · intro o mem
    rw [offsets_append, List.mem_append] at mem
    rcases mem with mem | mem
    · have := h.bounds o mem
      omega
    · have := h'.bounds o mem
      omega

theorem text {text : String} (position : IsPositionIn cs p) (lower : lo ≤ p.offset) (upper : p.offset < hi) :
    Placed cs lo hi [.text text p] := by
  constructor <;> simp [everythingIn, Node.everything, offsets, Node.isStructural, Node.positions, Node.position,
    Node.attributes, Node.opening, Node.Ordered, position, lower, upper]

theorem interpolation {expression : String} {value : BoundValue} (position : IsPositionIn cs p)
    (pipes : ∀ q ∈ value.positions, q = p) (opens : openBraces <+: cs.drop p.offset) (lower : lo ≤ p.offset)
    (upper : p.offset < hi) : Placed cs lo hi [.interpolation expression value p] := by
  have all : ∀ q ∈ p :: value.positions, IsPositionIn cs q := by
    intro q mem
    rcases List.mem_cons.mp mem with rfl | mem
    · exact position
    · rw [pipes q mem]
      exact position
  constructor <;> simp_all [everythingIn, Node.everything, offsets, Node.isStructural, Node.positions, Node.position,
    Node.attributes, Node.opening, Node.Ordered]

theorem wrapped {name expression : String} {clauses : Clauses} {directive : Option String} (h : Placed cs lo hi [n])
    (position : IsPositionIn cs p)
    (ordered : n.Holds p.offset ∧ ∀ a ∈ n.attributes, a.position.offset ≠ p.offset) :
    Placed cs lo hi [.structural name expression clauses n p directive] := by
  have each {P : Node → Prop} (own : P (.structural name expression clauses n p directive))
      (others : ∀ n' ∈ everythingIn [n], P n') :
      ∀ n' ∈ everythingIn [.structural name expression clauses n p directive], P n' := by
    intro n' mem
    rcases List.mem_cons.mp mem with rfl | mem
    · exact own
    · exact others n' mem
  refine ⟨each ?_ h.positions, each List.nil_prefix h.openings, each ordered h.attributes, h.increasing, h.bounds⟩
  intro q mem
  obtain rfl : q = p := by simpa [Node.positions, Node.position, Node.attributes] using mem
  exact position

end Placed

/-! ### Cursors -/

/-- The cursor stands in the text. -/
def Within (cs : List Char) (c : Cursor) : Prop :=
  ∃ x, (Cursor.start cs).Spans x c

theorem Within.behind (h : Within cs c) (spans : c.Spans x d) : Within cs d := by
  obtain ⟨y, reached⟩ := h
  exact ⟨y ++ x, reached.trans spans⟩

theorem Within.drop (h : Within cs c) : cs.drop c.offset = c.after := by
  obtain ⟨y, reached⟩ := h
  have offset : c.offset = y.length := by
    rw [reached.offset]
    exact Nat.zero_add _
  rw [show cs = y ++ c.after from reached.after, offset, List.drop_left]

theorem Within.isPositionIn (h : Within cs c) (inside : c.after ≠ []) : IsPositionIn cs (positionOf c) := by
  obtain ⟨y, reached⟩ := h
  have offset : (positionOf c).offset = y.length := by
    rw [show (positionOf c).offset = c.offset from rfl, reached.offset]
    exact Nat.zero_add _
  obtain ⟨line, column⟩ := positionOf_line reached
  refine ⟨?_, by rw [line, offset], by rw [column, offset]⟩
  have length : cs.length = y.length + c.after.length := reached.length
  have := List.length_pos_iff.mpr inside
  omega

theorem spans_offset_le (spans : c.Spans x d) : c.offset ≤ d.offset := by
  rw [spans.offset]
  omega

theorem spans_offset_lt (spans : c.Spans x d) (visible : x ≠ []) : c.offset < d.offset := by
  rw [spans.offset]
  have := List.length_pos_iff.mpr visible
  omega

/-! ### Text and interpolations -/

theorem textBetween_placed (h : Within cs start) (spans : start.Spans x c) (previous : Option Node) :
    Placed cs start.offset c.offset (textBetween previous start c) := by
  have raw : start.after.take (c.offset - start.offset) = x := by
    rw [spans.offset, spans.after, Nat.add_sub_cancel_left, List.take_left]
  have shown (text : String) (visible : x ≠ []) :
      Placed cs start.offset c.offset [.text text (positionOf start)] := by
    have inside : start.after ≠ [] := by
      rw [spans.after]
      simp [visible]
    exact .text (h.isPositionIn inside) (Nat.le_refl _) (spans_offset_lt spans visible)
  unfold textBetween
  rw [raw]
  dsimp only
  split
  · split
    · rename_i separates
      refine shown _ ?_
      rintro rfl
      simp [separatesInline] at separates
    · exact .nil ..
  · rename_i shows
    refine shown _ ?_
    rintro rfl
    simp at shows

theorem applyPipes_positions (p : Position) (segments : List String) (value : BoundValue)
    (h : ∀ q ∈ value.positions, q = p) : ∀ q ∈ (applyPipes (some p) value segments).positions, q = p := by
  induction segments generalizing value with
  | nil => exact h
  | cons segment segments ih =>
      refine ih _ ?_
      intro q mem
      rw [BoundValue.positions, List.mem_append] at mem
      rcases mem with mem | mem
      · exact h q mem
      · simpa using mem

theorem parseBoundValue_positions (expression : String) (p : Position) :
    ∀ q ∈ (parseBoundValue expression (some p)).positions, q = p := by
  unfold parseBoundValue
  split
  · simp [BoundValue.positions]
  · exact applyPipes_positions p _ _ (by simp [BoundValue.positions])

theorem readInterpolation_placed (h : Within cs c) (opens : opensInterpolation c.after = true)
    (read : readInterpolation c = .ok (n, d)) : ∃ x ≠ [], c.Spans x d ∧ Placed cs c.offset d.offset [n] := by
  obtain ⟨-, x, visible, spans⟩ := (readInterpolation_reads opens).ok read
  refine ⟨x, visible, spans, ?_⟩
  obtain ⟨rest, after⟩ := startsWith_iff.mp opens
  have inside : c.after ≠ [] := by simp [after]
  unfold readInterpolation at read
  split at read
  · cases read
  · dsimp only at read
    split at read
    · cases read
    · cases read
      refine .interpolation (h.isPositionIn inside) (parseBoundValue_positions _ _) ?_ (Nat.le_refl _)
        (spans_offset_lt spans visible)
      rw [show (positionOf c).offset = c.offset from rfl, h.drop, after]
      exact List.prefix_append openBraces rest

/-- The nodes read beyond those so far stand between two cursors. -/
def Adds (cs : List Char) (nodes : List Node) (c : Cursor) (result : List Node) (d : Cursor) : Prop :=
  ∃ ns x, result = nodes.reverse ++ ns ∧ c.Spans x d ∧ Placed cs c.offset d.offset ns

theorem Adds.behind {nodes made result : List Node} {middle : Cursor} (h : Adds cs (made.reverse ++ nodes) middle result d)
    (reached : c.Spans x middle) (placed : Placed cs c.offset middle.offset made) : Adds cs nodes c result d := by
  obtain ⟨ns, y, same, more, rest⟩ := h
  refine ⟨made ++ ns, _, ?_, reached.trans more, ?_⟩
  · rw [same]
    simp
  · exact placed.append rest (spans_offset_le reached) (spans_offset_le more)

theorem textBetween_adds (nodes : List Node) (h : Within cs start) (spans : start.Spans x c) :
    Adds cs nodes start (textBetween nodes.head? start c ++ nodes).reverse c := by
  refine ⟨_, x, ?_, spans, textBetween_placed h spans nodes.head?⟩
  rw [List.reverse_append, textBetween_reverse]

theorem readText_placed (fuel : Nat) (nodes : List Node) {result : List Node} (h : Within cs start)
    (spans : start.Spans x c) (read : readText fuel nodes start c = .ok (result, d)) :
    Adds cs nodes start result d := by
  induction fuel generalizing nodes start c x with
  | zero =>
      cases read
      exact textBetween_adds nodes h spans
  | succ fuel ih =>
      unfold readText at read
      split at read
      · cases read
        exact textBetween_adds nodes h spans
      · rename_i more
        split at read
        · rename_i opens
          split at read
          · cases read
          · rename_i node after made
            obtain ⟨y, visible, further, placed⟩ := readInterpolation_placed (h.behind spans) opens made
            have reached := spans.trans further
            have front := textBetween_placed h spans nodes.head?
            have rest := ih _ (h.behind reached) (.refl after) read
            have both := front.append placed (spans_offset_le spans) (spans_offset_le further)
            refine Adds.behind ?_ reached both
            simpa [textBetween_reverse] using rest
        · split at read
          · cases read
            exact textBetween_adds nodes h spans
          · obtain ⟨a, rest, after⟩ := List.exists_cons_of_ne_nil (by simpa using more : c.after ≠ [])
            exact ih nodes h (spans.trans (Cursor.spans_next after)) read

/-! ### Attributes -/

def ReadAttribute.positions : ReadAttribute → List Position
  | .plain a => a.positions
  | .structural _ _ p => [p]

theorem Reading.ite {α : Type} {done : α → Prop} {p : Prop} [Decidable p] {r r' : Except Failure α}
    (yes : Reading r done fun _ => True) (no : Reading r' done fun _ => True) :
    Reading (if p then r else r') done fun _ => True := by
  split
  · exact yes
  · exact no

theorem Reading.guarded {α : Type} {done : α → Prop} {p : Prop} [Decidable p] {e : Failure}
    {rest : PUnit → Except Failure α} (next : Reading (rest ()) done fun _ => True) :
    Reading (if p then throw e >>= rest else rest ()) done fun _ => True := by
  split
  · exact .of_error trivial
  · exact next

theorem Reading.any {α : Type} (r : Except Failure α) : Reading r (fun _ => True) fun _ => True :=
  ⟨fun _ => trivial, fun _ => trivial⟩

theorem interpolatedAttribute_positions (name value : String) (c : Cursor) :
    Reading (interpolatedAttribute name value c) (fun a? => ∀ a ∈ a?, ∀ p ∈ a.positions, p = positionOf c)
      fun _ => True := by
  unfold interpolatedAttribute
  refine .bind (.any _) ?_
  intro (texts, expressions) _
  dsimp only
  split
  · refine .of_ok ?_
    rintro a ⟨⟩ p mem
    rcases List.mem_cons.mp mem with rfl | mem
    · rfl
    · exact parseBoundValue_positions _ _ p mem
  · split
    · exact .of_ok (by simp)
    · refine .of_ok ?_
      rintro a ⟨⟩ p mem
      simpa [Attribute.positions, BoundValue.positions] using mem

theorem classifyAttribute_positions (name : String) (value : Option String) (c : Cursor) :
    Reading (classifyAttribute name value c) (fun r => ∀ p ∈ r.positions, p = positionOf c) fun _ => True := by
  unfold classifyAttribute
  extract_lets position unterminated
  have here : ∀ p ∈ [position], p = positionOf c := by simp [position]
  refine .ite (.guarded (.bind (.any _) fun _ _ => .of_ok here)) ?_
  refine .ite (.bind (.any _) fun _ _ => .of_ok here) ?_
  refine .ite ?property (.ite (.guarded (.bind (.any _) fun _ _ => .of_ok here)) ?_)
  case property =>
    refine .guarded (.bind (.any _) fun expression _ => ?_)
    have value : ∀ p ∈ position :: (parseBoundValue expression (some position)).positions, p = positionOf c := by
      intro p mem
      rcases List.mem_cons.mp mem with rfl | mem
      · rfl
      · exact parseBoundValue_positions _ _ p mem
    refine .ite (.of_ok ?_) (.of_ok value)
    simpa [ReadAttribute.positions, Attribute.positions] using value
  refine .ite ?structural (.ite (.of_ok here) (.ite (.of_ok ?known) (.guarded ?_)))
  case structural =>
    refine .guarded ?_
    dsimp +zetaDelta only
    split
    · exact .bind (.any _) fun _ _ => .of_ok here
    · exact .of_ok here
  case known =>
    cases value <;> simp [ReadAttribute.positions, Attribute.positions, BoundValue.positions, position]
  dsimp +zetaDelta only
  split
  · split
    · refine .bind (interpolatedAttribute_positions ..) ?_
      intro a? positions
      split
      · exact .of_ok (positions _ rfl)
      · exact .of_ok here
    · exact .of_ok here
  · exact .of_ok here

/-- The attributes and the structural directives of a start tag stand between two offsets, in order and apart. -/
structure AttributesPlaced (cs : List Char) (lo hi : Nat) (attributes : List Attribute)
    (structurals : List (String × String × Position)) : Prop where
  positions : ∀ a ∈ attributes, ∀ p ∈ a.positions, IsPositionIn cs p
  directives : ∀ s ∈ structurals, IsPositionIn cs s.2.2
  increasing : attributes.Pairwise (·.position.offset < ·.position.offset)
  bounds : ∀ a ∈ attributes, lo ≤ a.position.offset ∧ a.position.offset < hi
  bounds' : ∀ s ∈ structurals, lo ≤ s.2.2.offset ∧ s.2.2.offset < hi
  apart : ∀ s ∈ structurals, ∀ a ∈ attributes, a.position.offset ≠ s.2.2.offset

theorem Attribute.position_mem (a : Attribute) : a.position ∈ a.positions := by
  cases a <;> simp [Attribute.position, Attribute.positions]

namespace AttributesPlaced

variable {attributes : List Attribute} {structurals : List (String × String × Position)}

theorem mono {lo' hi' : Nat} (h : AttributesPlaced cs lo hi attributes structurals) (lower : lo' ≤ lo)
    (upper : hi ≤ hi') : AttributesPlaced cs lo' hi' attributes structurals := by
  refine ⟨h.positions, h.directives, h.increasing, ?_, ?_, h.apart⟩
  · intro a mem
    have := h.bounds a mem
    omega
  · intro s mem
    have := h.bounds' s mem
    omega

theorem plain {a : Attribute} (h : AttributesPlaced cs mid hi attributes structurals)
    (position : IsPositionIn cs p) (here : ∀ q ∈ a.positions, q = p) (lower : lo ≤ p.offset) (upper : p.offset < mid)
    (upper' : mid ≤ hi) : AttributesPlaced cs lo hi (a :: attributes) structurals := by
  have own : a.position = p := here _ a.position_mem
  have h' := h.mono (Nat.le_trans lower (Nat.le_of_lt upper)) (Nat.le_refl _)
  refine ⟨?_, h'.directives, ?_, ?_, h'.bounds', ?_⟩
  · intro b mem q listed
    rcases List.mem_cons.mp mem with rfl | mem
    · rw [here q listed]
      exact position
    · exact h.positions b mem q listed
  · rw [List.pairwise_cons]
    refine ⟨?_, h.increasing⟩
    intro b mem
    have := h.bounds b mem
    rw [own]
    omega
  · intro b mem
    rcases List.mem_cons.mp mem with rfl | mem
    · rw [own]
      omega
    · exact h'.bounds b mem
  · intro s mem b listed
    rcases List.mem_cons.mp listed with rfl | listed
    · have := h.bounds' s mem
      rw [own]
      omega
    · exact h.apart s mem b listed

theorem structural {name expression : String} (h : AttributesPlaced cs mid hi attributes structurals)
    (position : IsPositionIn cs p) (lower : lo ≤ p.offset) (upper : p.offset < mid) (upper' : mid ≤ hi) :
    AttributesPlaced cs lo hi attributes ((name, expression, p) :: structurals) := by
  have h' := h.mono (Nat.le_trans lower (Nat.le_of_lt upper)) (Nat.le_refl _)
  refine ⟨h'.positions, ?_, h'.increasing, h'.bounds, ?_, ?_⟩
  · intro s mem
    rcases List.mem_cons.mp mem with rfl | mem
    · exact position
    · exact h.directives s mem
  · intro s mem
    rcases List.mem_cons.mp mem with rfl | mem
    · exact ⟨lower, Nat.lt_of_lt_of_le upper upper'⟩
    · exact h'.bounds' s mem
  · intro s mem a listed
    rcases List.mem_cons.mp mem with rfl | mem
    · have := h.bounds a listed
      dsimp only
      omega
    · exact h.apart s mem a listed

end AttributesPlaced

theorem readAttributes_placed (tag : String) (start : Cursor) (fuel : Nat) (attributes : List Attribute)
    (structurals : List (String × String × Position)) {t : StartTag} (h : Within cs c)
    (read : readAttributes tag start fuel attributes structurals c = .ok t) :
    ∃ further others x, t.attributes = attributes.reverse ++ further ∧ t.structurals = structurals.reverse ++ others ∧
      c.Spans x t.rest ∧ AttributesPlaced cs c.offset t.rest.offset further others := by
  induction fuel generalizing attributes structurals c with
  | zero => cases read
  | succ fuel ih =>
      obtain ⟨gap, -, first, -⟩ := skipBlanks_spans c
      have close {selfClosing : Bool} {d : Cursor} (step : (skipBlanks c).Spans (closeTag selfClosing) d)
          (read : Except.ok ⟨attributes.reverse, structurals.reverse, selfClosing, d⟩ =
            (.ok t : Except Failure StartTag)) :
          ∃ further others x, t.attributes = attributes.reverse ++ further ∧
            t.structurals = structurals.reverse ++ others ∧ c.Spans x t.rest ∧
            AttributesPlaced cs c.offset t.rest.offset further others := by
        cases read
        refine ⟨[], [], _, (List.append_nil _).symm, (List.append_nil _).symm, first.trans step, ?_⟩
        constructor <;> simp
      unfold readAttributes at read
      dsimp only at read
      split at read
      · cases read
      · rename_i after
        exact close (Cursor.spans_advance (x := closeTag true) after) read
      · rename_i after
        have step : (skipBlanks c).Spans (closeTag false) (skipBlanks c).next := Cursor.spans_next after
        exact close step read
      · rename_i inside _ _
        have position := (h.behind first).isPositionIn inside
        have le := spans_offset_le first
        split at read
        · cases read
        · rename_i a after made
          obtain ⟨name, value, -, -, -, means, x, visible, second⟩ := (readAttribute_reads (skipBlanks c)).ok made
          have here := (classifyAttribute_positions (String.ofList name) (value.map String.ofList) (skipBlanks c)).ok means
          have lt := spans_offset_lt second visible
          obtain ⟨further, others, y, same, same', third, placed⟩ := ih _ _ ((h.behind first).behind second) read
          have le' := spans_offset_le third
          refine ⟨a :: further, others, _, by simp [same], same', (first.trans second).trans third, ?_⟩
          exact placed.plain position here le lt le'
        · rename_i directive expression p after made
          obtain ⟨name, value, -, -, -, means, x, visible, second⟩ := (readAttribute_reads (skipBlanks c)).ok made
          have here := (classifyAttribute_positions (String.ofList name) (value.map String.ofList) (skipBlanks c)).ok means
          obtain rfl : p = positionOf (skipBlanks c) := here p List.mem_cons_self
          have lt := spans_offset_lt second visible
          obtain ⟨further, others, y, same, same', third, placed⟩ := ih _ _ ((h.behind first).behind second) read
          have le' := spans_offset_le third
          refine ⟨further, (directive, expression, positionOf (skipBlanks c)) :: others, _, same, by simp [same'],
            (first.trans second).trans third, ?_⟩
          exact placed.structural position le lt le'

/-! ### Elements -/

theorem Node.start_mem_offsets (n : Node) : n.start ∈ offsets [n] := by
  cases n with
  | structural name expression clauses child p directive =>
      have inner := child.start_mem_offsets
      simpa [offsets, everythingIn, Node.everything, Node.isStructural, Node.start] using inner
  | _ => simp [offsets, everythingIn, Node.everything, Node.isStructural, Node.start, Node.position]

theorem Placed.le_start (h : Placed cs lo hi ns) (mem : n ∈ ns.head?) : lo ≤ n.start := by
  obtain ⟨more, rfl⟩ := List.head?_eq_some_iff.mp mem
  refine (h.bounds n.start ?_).1
  rw [show n :: more = [n] ++ more from rfl, offsets_append]
  exact List.mem_append_left _ n.start_mem_offsets

section Building

variable {tag : String} {t : StartTag} {children : List Node}

theorem ownNode_cases (P : Node → Prop) (container : P (.container tag t.attributes children p))
    (element : P (.element tag t.attributes children p t.selfClosing none)) : P (ownNode tag t children p) := by
  unfold ownNode
  split
  · exact container
  · exact element

theorem ownNode_placed (position : IsPositionIn cs p) (opens : '<' :: tag.toList <+: cs.drop p.offset)
    (attributes : AttributesPlaced cs (p.offset + 1) mid t.attributes t.structurals)
    (inside : Placed cs mid hi children) (lower : p.offset < mid) (upper : mid ≤ hi) :
    Placed cs p.offset hi [ownNode tag t children p] := by
  have holds : ∀ a ∈ t.attributes, p.offset < a.position.offset ∧
      ∀ child ∈ children.head?, a.position.offset < child.start := by
    intro a mem
    obtain ⟨above, below⟩ := attributes.bounds a mem
    refine ⟨above, ?_⟩
    intro child first
    exact Nat.lt_of_lt_of_le below (inside.le_start first)
  have each {P : Node → Prop} (own : P (ownNode tag t children p)) (others : ∀ n ∈ everythingIn children, P n) :
      ∀ n ∈ everythingIn [ownNode tag t children p], P n := by
    intro n mem
    have among : n = ownNode tag t children p ∨ n ∈ everythingIn children := by
      revert mem
      refine ownNode_cases (p := p) (t := t) (fun own => n ∈ everythingIn [own] → n = own ∨ _) ?_ ?_ <;>
        simp [everythingIn, Node.everything]
    rcases among with rfl | mem
    · exact own
    · exact others n mem
  have same : offsets [ownNode tag t children p] = p.offset :: offsets children := by
    refine ownNode_cases (p := p) (t := t) (fun own => offsets [own] = _) ?_ ?_ <;>
      simp [offsets, everythingIn, Node.everything, Node.isStructural, Node.position]
  constructor
  · refine each ?_ inside.positions
    have all : ∀ q ∈ p :: t.attributes.flatMap Attribute.positions, IsPositionIn cs q := by
      intro q mem
      rcases List.mem_cons.mp mem with rfl | mem
      · exact position
      · obtain ⟨a, listed, among⟩ := List.mem_flatMap.mp mem
        exact attributes.positions a listed q among
    exact ownNode_cases (fun own => ∀ q ∈ own.positions, IsPositionIn cs q) all all
  · refine each ?_ inside.openings
    exact ownNode_cases (fun own => own.opening <+: cs.drop own.position.offset) opens opens
  · refine each ?_ inside.attributes
    exact ownNode_cases Node.Ordered ⟨attributes.increasing, holds⟩ ⟨attributes.increasing, holds⟩
  · rw [same, List.pairwise_cons]
    refine ⟨?_, inside.increasing⟩
    intro o mem
    have := inside.bounds o mem
    omega
  · rw [same]
    intro o mem
    rcases List.mem_cons.mp mem with rfl | mem
    · omega
    · have := inside.bounds o mem
      omega

theorem buildElement_placed (position : IsPositionIn cs p) (opens : '<' :: tag.toList <+: cs.drop p.offset)
    (attributes : AttributesPlaced cs (p.offset + 1) mid t.attributes t.structurals)
    (inside : Placed cs mid hi children) (lower : p.offset < mid) (upper : mid ≤ hi) :
    Placed cs p.offset hi [buildElement tag t children p] := by
  have own := ownNode_placed position opens attributes inside lower upper
  unfold buildElement
  dsimp only
  split
  · rename_i directive expression place others found
    rw [← ownNode]
    have listed : (directive, expression, place) ∈ t.structurals := by simp [found]
    obtain ⟨above, below⟩ := attributes.bounds' _ listed
    have ordered : (ownNode tag t children p).Holds place.offset ∧
        ∀ a ∈ (ownNode tag t children p).attributes, a.position.offset ≠ place.offset := by
      have holds : p.offset < place.offset ∧ ∀ child ∈ children.head?, place.offset < child.start := by
        refine ⟨above, ?_⟩
        intro child first
        exact Nat.lt_of_lt_of_le below (inside.le_start first)
      have apart := attributes.apart _ listed
      exact ownNode_cases (fun own => own.Holds place.offset ∧ ∀ a ∈ own.attributes, a.position.offset ≠ place.offset)
        ⟨holds, apart⟩ ⟨holds, apart⟩
    refine own.wrapped (attributes.directives _ listed) ordered
  · exact own

end Building

theorem readStartTag_placed {bound : Nat} {tag : String} {t : StartTag} (h : Within cs c)
    (opens : opensElement c.after = true) (read : readStartTag bound c = .ok (tag, t)) :
    '<' :: tag.toList <+: c.after ∧ (∃ x ≠ [], c.Spans x t.rest) ∧
      AttributesPlaced cs (c.offset + 1) t.rest.offset t.attributes t.structurals := by
  obtain ⟨-, -, visible⟩ := (readStartTag_reads bound opens).ok read
  obtain ⟨l, text, after, -⟩ := exists_letter_of_opensElement opens
  unfold readStartTag at read
  split at read
  · cases read
  · rename_i name found
    rw [after] at found
    obtain ⟨more, rest, -⟩ := tagName?_eq_some found
    have whole : c.after = ('<' :: name) ++ more := by
      rw [after, List.cons_append, ← rest]
      rfl
    have first : c.Spans ('<' :: name) (c.advance (name.length + 1)) := Cursor.spans_advance whole
    obtain ⟨t', made, kept⟩ := ok_of_bind read
    split at kept
    · cases kept
    · cases kept
      obtain ⟨further, others, x, same, same', -, placed⟩ := readAttributes_placed _ _ _ _ _ (h.behind first) made
      rw [same, same', String.toList_ofList]
      refine ⟨?_, visible, ?_⟩
      · rw [whole]
        exact List.prefix_append ..
      · refine placed.mono ?_ (Nat.le_refl _)
        rw [first.offset, List.length_cons]
        omega

/-! ### Whole templates -/

theorem readNodes_placed (fuel : Nat) (parent : Option (String × Cursor)) (nodes : List Node) {result : List Node}
    (h : Within cs c) (read : readNodes fuel parent nodes c = .ok (result, d)) : Adds cs nodes c result d := by
  induction fuel generalizing parent nodes c result d with
  | zero =>
      cases read
      exact ⟨[], [], (List.append_nil _).symm, .refl c, .nil ..⟩
  | succ fuel ih =>
      have goOn (made : List Node) {x : List Char} {middle : Cursor} (reached : c.Spans x middle)
          (placed : Placed cs c.offset middle.offset made)
          (read : readNodes fuel parent (made.reverse ++ nodes) middle = .ok (result, d)) : Adds cs nodes c result d :=
        (ih _ _ (h.behind reached) read).behind reached placed
      unfold readNodes at read
      split at read
      · split at read
        · cases read
        · cases read
          exact ⟨[], [], (List.append_nil _).symm, .refl c, .nil ..⟩
      · rename_i inside
        have position := h.isPositionIn inside
        split at read
        · rename_i opens
          split at read
          · rename_i after skipped
            obtain ⟨body, reached, -⟩ := skipComment?_eq_some opens skipped
            exact goOn [] reached (.nil ..) read
          · cases read
        split at read
        · rename_i opens
          split at read
          · cases read
          · rename_i tag after found
            obtain ⟨close, -, reached, -⟩ := readEndTag?_eq_some opens found
            split at read
            · cases read
            · split at read
              · cases read
                exact ⟨[], close, (List.append_nil _).symm, reached, .nil ..⟩
              · cases read
        split at read
        · rename_i opens
          split at read
          · cases read
          · rename_i tag t made
            obtain ⟨begins, ⟨x, visible, reached⟩, attributes⟩ := readStartTag_placed h opens made
            have lt := spans_offset_lt reached visible
            rw [← h.drop] at begins
            split at read
            · have placed := buildElement_placed position begins attributes (.nil ..) lt (Nat.le_refl _)
              exact goOn [_] reached placed read
            · split at read
              · cases read
              · rename_i children after done
                obtain ⟨ns, y, rfl, more, placed⟩ := ih _ _ (h.behind reached) done
                have whole := buildElement_placed position begins attributes placed lt (spans_offset_le more)
                exact goOn [_] (reached.trans more) whole read
        · split at read
          · cases read
          · rename_i texts after made
            obtain ⟨_, x, rfl, reached, placed⟩ := readText_placed _ _ h (.refl c) made
            exact goOn _ reached placed read

/-- The nodes of a template stand in it where their positions say, in document order. -/
theorem parse_placed {s : String} {nodes : List Node} (h : parse s = .ok nodes) :
    Placed s.toList 0 s.toList.length nodes := by
  unfold parse parseWithin at h
  split at h
  · cases h
    exact .nil ..
  · split at h
    · rename_i result d made
      cases h
      obtain ⟨ns, x, rfl, spans, placed⟩ := readNodes_placed _ _ _ ⟨[], .refl _⟩ made
      refine placed.mono (Nat.zero_le _) ?_
      have length : s.toList.length = x.length + d.after.length := spans.length
      have offset : d.offset = 0 + x.length := spans.offset
      omega
    · cases h

theorem parse_placed_item :
    ∃ nodes, parse "<p b *ngIf=\"a\">\n<br>\x7b\x7b c | d \x7d\x7d</p>" = .ok nodes ∧
      Placed "<p b *ngIf=\"a\">\n<br>\x7b\x7b c | d \x7d\x7d</p>".toList 0 35 nodes := by
  have accepted : (parse "<p b *ngIf=\"a\">\n<br>\x7b\x7b c | d \x7d\x7d</p>").isOk = true := by decide +kernel
  cases outcome : parse "<p b *ngIf=\"a\">\n<br>\x7b\x7b c | d \x7d\x7d</p>" with
  | ok nodes => exact ⟨nodes, rfl, parse_placed outcome⟩
  | error e => rw [outcome] at accepted; cases accepted

end ReactMigration.Template
