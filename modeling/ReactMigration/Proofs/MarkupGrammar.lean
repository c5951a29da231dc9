import ReactMigration.Template.Parser

/-!
How template markup is spelled.

`Spells nodes text rest` says that the text, up to `rest`, is put together from comments, runs of text,
interpolations and elements that give the nodes in this order.  Every part ends where the next one
begins, so that no text has two readings.  The readers of the single parts are shown to keep to it, and
to point at the place of what they refuse.
-/

namespace ReactMigration.Text

/-- The text between two cursors. -/
structure Cursor.Spans (c : Cursor) (x : List Char) (d : Cursor) : Prop where
  after : c.after = x ++ d.after
  before : d.before = x.reverse ++ c.before
  offset : d.offset = c.offset + x.length

namespace Cursor

variable {c d e : Cursor} {x y rest : List Char}

theorem Spans.refl (c : Cursor) : c.Spans [] c :=
  ⟨rfl, rfl, rfl⟩

theorem Spans.trans (h : c.Spans x d) (h' : d.Spans y e) : c.Spans (x ++ y) e where
  after := by rw [h.after, h'.after, List.append_assoc]
  before := by rw [h'.before, h.before, List.reverse_append, List.append_assoc]
  offset := by rw [h'.offset, h.offset, List.length_append, Nat.add_assoc]

theorem Spans.length (h : c.Spans x d) : c.after.length = x.length + d.after.length := by
  rw [h.after, List.length_append]

theorem Spans.shorter (h : c.Spans x d) (visible : x ≠ []) : d.after.length < c.after.length := by
  have := h.length
  have := List.length_pos_iff.mpr visible
  omega

theorem Spans.remaining (h : c.Spans x d) (split : c.after = x ++ rest) : d.after = rest :=
  List.append_cancel_left (h.after.symm.trans split)

theorem spans_next {a : Char} (h : c.after = a :: rest) : c.Spans [a] c.next := by
  constructor <;> simp [Cursor.next, h]

theorem spans_advance : ∀ {x : List Char} {c : Cursor}, c.after = x ++ rest →
    c.Spans x (c.advance x.length)
  | [], c, _ => .refl c
  | a :: x, c, h => by
      have step : c.Spans [a] c.next := spans_next h
      exact step.trans (spans_advance (step.remaining h))

/-- Passing over characters of a class. -/
theorem spans_while (p : Char → Bool) (c : Cursor) :
    c.Spans (c.after.takeWhile p) (c.advance (c.after.takeWhile p).length) :=
  spans_advance List.takeWhile_append_dropWhile.symm

theorem length_advance_le : ∀ (n : Nat) (c : Cursor), (c.advance n).after.length ≤ c.after.length
  | 0, _ => Nat.le_refl _
  | n + 1, c => by
      refine Nat.le_trans (length_advance_le n c.next) ?_
      unfold Cursor.next
      split <;> simp [*]

end Cursor

theorem startsWith_iff {cs lead : List Char} :
    startsWith cs lead = true ↔ ∃ rest, cs = lead ++ rest := by
  simp only [startsWith, Option.isSome_iff_exists, dropLead?_eq_some_iff]

/-- The text does not go on with a character of the class. -/
def NotNext (p : Char → Bool) (rest : List Char) : Prop :=
  ∀ c ∈ rest.head?, p c = false

instance (p : Char → Bool) (rest : List Char) : Decidable (NotNext p rest) :=
  match rest with
  | [] => .isTrue (by simp [NotNext])
  | c :: _ => decidable_of_iff (p c = false) (by simp [NotNext])

theorem notNext_dropWhile (p : Char → Bool) (cs : List Char) : NotNext p (cs.dropWhile p) := by
  intro c mem
  have := List.head?_dropWhile_not p cs
  rw [Option.mem_def.mp mem] at this
  exact this

theorem takeWhile_append_of_notNext {p : Char → Bool} {cs rest : List Char} (all : cs.all p = true)
    (ends : NotNext p rest) : (cs ++ rest).takeWhile p = cs := by
  rw [List.takeWhile_append_of_pos (List.all_eq_true.mp all)]
  cases rest with
  | nil => simp
  | cons a rest => simp [ends a rfl]

theorem dropWhile_of_notNext {p : Char → Bool} {cs : List Char} (h : NotNext p cs) :
    cs.dropWhile p = cs := by
  cases cs with
  | nil => rfl
  | cons a cs => simp [h a rfl]

end ReactMigration.Text

namespace ReactMigration.Template

open ReactMigration.Text

/-! ### Grammar -/

/-- The braces around an interpolation. -/
def openBraces : List Char := ['\x7b', '\x7b']

def closeBraces : List Char := ['\x7d', '\x7d']

/-- The marks around a comment. -/
def openComment : List Char := ['<', '!', '-', '-']

def closeComment : List Char := ['-', '-', '>']

/-- Something other than text opens here. -/
def opensMarkup (cs : List Char) : Bool :=
  opensInterpolation cs || endsText cs

/-- Nothing but text opens within the first part. -/
def Quiet : List Char → List Char → Prop
  | [], _ => True
  | c :: run, rest => opensMarkup (c :: run ++ rest) = false ∧ Quiet run rest

/-- A run of text: it ends where something else opens, or with the text. -/
structure IsRun (run rest : List Char) : Prop where
  visible : run ≠ []
  quiet : Quiet run rest
  ends : rest = [] ∨ opensMarkup rest = true

/-- A tag name. -/
def IsTagName : List Char → Prop
  | [] => False
  | c :: cs => isAsciiLetter c = true ∧ cs.all isTagPart = true

instance : DecidablePred IsTagName
  | [] => inferInstanceAs (Decidable False)
  | c :: cs => inferInstanceAs (Decidable (isAsciiLetter c = true ∧ cs.all isTagPart = true))

/-- The value of an attribute, in quotes or without. -/
inductive SpellsValue (value : List Char) : List Char → List Char → Prop
  | quoted {q : Char} {rest : List Char} (quote : q = '\'' ∨ q = '"') (closes : q ∉ value) :
      SpellsValue value (q :: (value ++ q :: rest)) rest
  | unquoted {rest : List Char} (visible : value ≠ []) (plain : value.all isUnquotedValue = true)
      (ends : NotNext isUnquotedValue rest) : SpellsValue value (value ++ rest) rest

/-- An attribute with its name and its value, if it has one. -/
inductive SpellsAttribute (name : List Char) : Option (List Char) → List Char → List Char → Prop
  | bare {gap rest : List Char} (blank : gap.all isBlank = true)
      (ends : NotNext isAttributeName (gap ++ rest))
      (alone : NotNext (fun c => isBlank c || c == '=') rest) :
      SpellsAttribute name none (name ++ (gap ++ rest)) rest
  | valued {gap gap' value text rest : List Char} (blank : gap.all isBlank = true)
      (blank' : gap'.all isBlank = true) (spelled : SpellsValue value text rest) :
      SpellsAttribute name (some value) (name ++ (gap ++ '=' :: (gap' ++ text))) rest

/-- The attributes of a start tag in order, and beside them its structural directives.  An attribute is
what its name and value mean. -/
inductive SpellsAttributes :
    List Attribute → List (String × String × Position) → List Char → List Char → Prop
  | done {gap rest : List Char} (blank : gap.all isBlank = true) : SpellsAttributes [] [] (gap ++ rest) rest
  | plain {c : Cursor} {gap name text more rest : List Char} {value : Option (List Char)} {a : Attribute}
      {attributes : List Attribute} {structurals : List (String × String × Position)}
      (blank : gap.all isBlank = true) (named : name ≠ []) (letters : name.all isAttributeName = true)
      (spelled : SpellsAttribute name value text more)
      (means : classifyAttribute (String.ofList name) (value.map String.ofList) c = .ok (.plain a))
      (others : SpellsAttributes attributes structurals more rest) :
      SpellsAttributes (a :: attributes) structurals (gap ++ text) rest
  | structural {c : Cursor} {gap name text more rest : List Char} {value : Option (List Char)}
      {directive expression : String} {p : Position}
      {attributes : List Attribute} {structurals : List (String × String × Position)}
      (blank : gap.all isBlank = true) (named : name ≠ []) (letters : name.all isAttributeName = true)
      (spelled : SpellsAttribute name value text more)
      (means : classifyAttribute (String.ofList name) (value.map String.ofList) c =
        .ok (.structural directive expression p))
      (others : SpellsAttributes attributes structurals more rest) :
      SpellsAttributes attributes ((directive, expression, p) :: structurals) (gap ++ text) rest

/-- How a start tag ends. -/
def closeTag (selfClosing : Bool) : List Char :=
  if selfClosing then ['/', '>'] else ['>']

/-- A start tag. -/
inductive SpellsStart (tag : String) (attributes : List Attribute)
    (structurals : List (String × String × Position)) (selfClosing : Bool) :
    List Char → List Char → Prop
  | intro {more rest : List Char} (named : IsTagName tag.toList) (ends : NotNext isTagPart more)
      (inside : SpellsAttributes attributes structurals more (closeTag selfClosing ++ rest)) :
      SpellsStart tag attributes structurals selfClosing ('<' :: (tag.toList ++ more)) rest

/-- An end tag, its name equal to the given one up to case. -/
inductive SpellsEnd (tag : String) : List Char → Prop
  | intro {gap name gap' : List Char} (named : IsTagName name) (blank : gap.all isBlank = true)
      (blank' : gap'.all isBlank = true)
      (same : toLower (String.ofList name) = toLower tag) :
      SpellsEnd tag ('<' :: '/' :: (gap ++ (name ++ (gap' ++ ['>']))))

/-- An element that has neither content nor an end tag. -/
def IsChildless (tag : String) (selfClosing : Bool) : Prop :=
  selfClosing = true ∨ toLower tag ∈ voidElements

instance (tag : String) (selfClosing : Bool) : Decidable (IsChildless tag selfClosing) :=
  inferInstanceAs (Decidable (_ ∨ _))

/-- The node of an element: one element or container, inside of its structural directive if it has
one. -/
inductive Hosts (tag : String) (attributes : List Attribute) (selfClosing : Bool)
    (children : List Node) : List (String × String × Position) → Node → Prop
  | element (p : Position) (other : tag ∉ containerTags) :
      Hosts tag attributes selfClosing children [] (.element tag attributes children p selfClosing none)
  | container (p : Position) (group : tag ∈ containerTags) :
      Hosts tag attributes selfClosing children [] (.container tag attributes children p)
  | structural {directive expression : String} {p : Position} {node : Node}
      (inner : Hosts tag attributes selfClosing children [] node) :
      Hosts tag attributes selfClosing children [(directive, expression, p)]
        (.structural directive expression (parseClauses directive expression) node p none)

/-- The text, up to `rest`, gives the nodes in this order. -/
inductive Spells : List Node → List Char → List Char → Prop
  | done (rest : List Char) : Spells [] rest rest
  | comment {body text rest : List Char} {ns : List Node}
      (first : breakOn? closeComment (body ++ (closeComment ++ text)) = some (body, text))
      (more : Spells ns text rest) :
      Spells ns (openComment ++ (body ++ (closeComment ++ text))) rest
  | blank {run text rest : List Char} {ns : List Node} (isRun : IsRun run text)
      (blank : run.all isBlank = true) (more : Spells ns text rest) : Spells ns (run ++ text) rest
  | space {run text rest : List Char} {ns : List Node} (p : Position) (isRun : IsRun run text)
      (blank : run.all isBlank = true) (more : Spells ns text rest) :
      Spells (.text " " p :: ns) (run ++ text) rest
  | text {run text rest : List Char} {ns : List Node} (p : Position) (isRun : IsRun run text)
      (shows : run.all isBlank = false) (more : Spells ns text rest) :
      Spells (.text (String.ofList (collapseChars run)) p :: ns) (run ++ text) rest
  | interpolation {inside text rest : List Char} {ns : List Node} (p : Position)
      (first : interpolationLength? none 0 (inside ++ (closeBraces ++ text)) = some inside.length)
      (shows : trim (String.ofList inside) ≠ "") (more : Spells ns text rest) :
      Spells (.interpolation (trim (String.ofList inside))
          (parseBoundValue (trim (String.ofList inside)) (some p)) p :: ns)
        (openBraces ++ (inside ++ (closeBraces ++ text))) rest
  | childless {tag : String} {start text rest : List Char} {attributes : List Attribute}
      {structurals : List (String × String × Position)} {selfClosing : Bool} {node : Node}
      {ns : List Node} (starts : SpellsStart tag attributes structurals selfClosing start text)
      (isChildless : IsChildless tag selfClosing)
      (hosts : Hosts tag attributes selfClosing [] structurals node)
      (more : Spells ns text rest) : Spells (node :: ns) start rest
  | element {tag : String} {start inside close text rest : List Char} {attributes : List Attribute}
      {structurals : List (String × String × Position)} {selfClosing : Bool} {node : Node}
      {children ns : List Node} (starts : SpellsStart tag attributes structurals selfClosing start inside)
      (hasChildren : ¬ IsChildless tag selfClosing)
      (within : Spells children inside (close ++ text)) (ends : SpellsEnd tag close)
      (hosts : Hosts tag attributes selfClosing children structurals node)
      (more : Spells ns text rest) : Spells (node :: ns) start rest

theorem Spells.append {ns ms : List Node} {text middle rest : List Char} (h : Spells ns text middle)
    (more : Spells ms middle rest) : Spells (ns ++ ms) text rest := by
  induction h with
  | done => exact more
  | comment first _ ih => exact .comment first (ih more)
  | blank isRun blank _ ih => exact .blank isRun blank (ih more)
  | space p isRun blank _ ih => exact .space p isRun blank (ih more)
  | text p isRun shows _ ih => exact .text p isRun shows (ih more)
  | interpolation p first shows _ ih => exact .interpolation p first shows (ih more)
  | childless starts isChildless hosts _ ih => exact .childless starts isChildless hosts (ih more)
  | element starts hasChildren within ends hosts _ _ ih =>
      exact .element starts hasChildren within ends hosts (ih more)

/-! ### Failures -/

/-- The finding is about markup, or about an element with several structural directives. -/
def IsAboutMarkup (f : Finding) : Prop :=
  (∃ attr, f.kind = .markup attr) ∨
    ∃ element directives, f.kind = .duplicateStructural element directives

/-- The failure is a finding about markup at the place of the cursor. -/
structure PointsAt (c : Cursor) (e : Failure) : Prop where
  intro ::
  finding : ∃ f, e = .finding f ∧ IsAboutMarkup f ∧
    f.line = some ((positionOf c).line : Int) ∧ f.column = some ((positionOf c).column : Int)

theorem markupError_pointsAt (message : String) (c : Cursor) (attr : Option String) :
    PointsAt c (markupError message c attr) :=
  ⟨_, rfl, .inl ⟨attr, rfl⟩, rfl, rfl⟩

/-- Reading from the cursor on breaks off: over something that begins before the end of the text, or
over a tag that begins with a letter which is not an ASCII one. -/
inductive BreaksOff (c : Cursor) (e : Failure) : Prop
  | points {x : List Char} {d : Cursor} (reached : c.Spans x d) (inside : d.after ≠ [])
      (points : PointsAt d e)
  | foreign {x : List Char} {d : Cursor} {l : Char} {rest : List Char} (reached : c.Spans x d)
      (opens : d.after = '<' :: l :: rest) (letter : isLetter l = true)
      (notAscii : isAsciiLetter l = false)

theorem BreaksOff.behind {c d : Cursor} {x : List Char} {e : Failure} (h : BreaksOff d e)
    (reached : c.Spans x d) : BreaksOff c e := by
  cases h with
  | points more inside points => exact .points (reached.trans more) inside points
  | foreign more opens letter notAscii => exact .foreign (reached.trans more) opens letter notAscii

/-- What reading gives, and how it fails. -/
structure Reading {α : Type} (r : Except Failure α) (done : α → Prop) (failed : Failure → Prop) :
    Prop where
  ok : ∀ {a}, r = .ok a → done a
  error : ∀ {e}, r = .error e → failed e

namespace Reading

variable {α : Type} {done : α → Prop} {failed : Failure → Prop}

theorem of_ok {a : α} (h : done a) : Reading (.ok a) done failed :=
  ⟨fun same => Except.ok.inj same ▸ h, fun other => nomatch other⟩

theorem of_error {e : Failure} (h : failed e) : Reading (.error e) done failed :=
  ⟨fun other => (nomatch other), fun same => Except.error.inj same ▸ h⟩

theorem mono {r : Except Failure α} {done' : α → Prop} {failed' : Failure → Prop}
    (h : Reading r done failed) (onOk : ∀ a, done a → done' a) (onError : ∀ e, failed e → failed' e) :
    Reading r done' failed' :=
  ⟨fun same => onOk _ (h.ok same), fun same => onError _ (h.error same)⟩

theorem bind {β : Type} {r : Except Failure α} {f : α → Except Failure β} {done' : β → Prop}
    (h : Reading r done failed) (next : ∀ a, done a → Reading (f a) done' failed) :
    Reading (r >>= f) done' failed := by
  cases r with
  | error e => exact .of_error (h.error rfl)
  | ok a => exact next a (h.ok rfl)

end Reading

end ReactMigration.Template
