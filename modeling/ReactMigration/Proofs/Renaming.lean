import Mathlib.Data.List.Basic
import ReactMigration.Proofs.TokenSpans
import ReactMigration.Script.Names

/-!
Renaming the references of an expression.

A text that can be read is its tokens and what stands between them.  Renaming exchanges the references among the tokens
for their images, each at its own place, and leaves every other character; so no image is renamed again, and writing the
edits from the last to the first gives the same text.  A text that cannot be read stays as it is, unless reading it
looks back at a token that does not exist.
-/

namespace ReactMigration.Script

open ReactMigration.Text

variable {text : List Char} {place stop : Nat} {mapping : List (String × String)} {tokens : List Token}

/-! ### References -/

/-- The token before a place in a list of tokens, `previous` being the one before the first. -/
def tokenBefore (previous : Option Token) (tokens : List Token) : Nat → Option Token
  | 0 => previous
  | i + 1 => tokens[i]?

/-- A name behind a dot. -/
def IsMemberName (tokens : List Token) (i : Nat) : Prop :=
  ∃ t, tokenBefore none tokens i = some t ∧ t.kind = .punctuator ∧ t.text = "."

/-- A name before a colon that opens a record or follows a comma. -/
def IsObjectKey (tokens : List Token) (i : Nat) : Prop :=
  (∃ t, tokenBefore none tokens i = some t ∧ (t.text = "\x7b" ∨ t.text = ",")) ∧
    ∃ t, tokens[i + 1]? = some t ∧ t.kind = .punctuator ∧ t.text = ":"

structure IsReference (tokens : List Token) (i : Nat) : Prop where
  identifier : ∃ t, tokens[i]? = some t ∧ t.kind = .identifier
  whole : ¬ IsMemberName tokens i
  value : ¬ IsObjectKey tokens i

/-- What stands for each token: the image of a reference that has one, and the token itself otherwise. -/
def Renamed (mapping : List (String × String)) (tokens : List Token) (words : List String) : Prop :=
  words.length = tokens.length ∧ ∀ i t, tokens[i]? = some t →
    (IsReference tokens i → words[i]? = some ((mapping.lookup t.text).getD t.text)) ∧
      (¬ IsReference tokens i → words[i]? = some t.text)

/-- The word for each token. -/
def renamedWords (mapping : List (String × String)) : Option Token → List Token → List String
  | _, [] => []
  | previous, t :: tokens =>
      (if isReference previous t tokens.head? then (mapping.lookup t.text).getD t.text else t.text) ::
        renamedWords mapping (some t) tokens

theorem renamedWords_length (mapping : List (String × String)) (previous : Option Token) (tokens : List Token) :
    (renamedWords mapping previous tokens).length = tokens.length := by
  induction tokens generalizing previous with
  | nil => rfl
  | cons t tokens ih => exact congrArg Nat.succ (ih (some t))

theorem renamedWords_getElem? {previous : Option Token} {i : Nat} {t : Token} (here : tokens[i]? = some t) :
    (renamedWords mapping previous tokens)[i]? =
      some (if isReference (tokenBefore previous tokens i) t tokens[i + 1]? then (mapping.lookup t.text).getD t.text
        else t.text) := by
  induction tokens generalizing previous i with
  | nil => cases here
  | cons u tokens ih =>
      cases i with
      | zero =>
          obtain rfl : u = t := Option.some.inj here
          rw [renamedWords, List.getElem?_cons_zero, List.head?_eq_getElem?]
          rfl
      | succ i =>
          have before : tokenBefore previous (u :: tokens) (i + 1) = tokenBefore (some u) tokens i := by
            cases i <;> rfl
          rw [renamedWords, List.getElem?_cons_succ, ih here, before]
          rfl

theorem isReference_iff {i : Nat} {t : Token} (here : tokens[i]? = some t) :
    isReference (tokenBefore none tokens i) t tokens[i + 1]? = true ↔ IsReference tokens i := by
  have kind : (∃ u, tokens[i]? = some u ∧ u.kind = .identifier) ↔ t.kind = .identifier := by simp [here]
  have member : IsMemberName tokens i ↔
      ((tokenBefore none tokens i).map (·.isPunctuator ".")).getD false = true := by
    cases before : tokenBefore none tokens i <;> simp [IsMemberName, before, Token.isPunctuator]
  have key : IsObjectKey tokens i ↔ (tokens[i + 1]?.map (·.isPunctuator ":")).getD false = true ∧
      ((tokenBefore none tokens i).map fun p => p.text == "\x7b" || p.text == ",").getD false = true := by
    cases before : tokenBefore none tokens i <;> cases next : tokens[i + 1]? <;>
      simp [IsObjectKey, before, next, Token.isPunctuator, and_comm]
  rw [isReference, Bool.and_eq_true, Bool.and_eq_true, beq_iff_eq, ← kind, Bool.not_eq_true', Bool.not_eq_true',
    ← Bool.not_eq_true, ← Bool.not_eq_true, Bool.and_eq_true, ← member, ← key]
  exact ⟨fun ⟨⟨identifier, whole⟩, value⟩ => ⟨identifier, whole, value⟩,
    fun reference => ⟨⟨reference.identifier, reference.whole⟩, reference.value⟩⟩

theorem renamedWords_renamed (mapping : List (String × String)) (tokens : List Token) :
    Renamed mapping tokens (renamedWords mapping none tokens) := by
  refine ⟨renamedWords_length mapping none tokens, fun i t here => ⟨fun reference => ?_, fun other => ?_⟩⟩
  · rw [renamedWords_getElem? here, if_pos ((isReference_iff here).mpr reference)]
  · rw [renamedWords_getElem? here, if_neg (mt (isReference_iff here).mp other)]

/-! ### Edits -/

/-- The stretches that are exchanged, with their images. -/
def edits (mapping : List (String × String)) (references : List Token) : List (Nat × Nat × String) :=
  references.filterMap fun t => (mapping.lookup t.text).map fun image => (t.start, t.stop, image)

/-- One stretch of a text exchanged. -/
def splice (edit : Nat × Nat × String) (text : List Char) : List Char :=
  text.take edit.1 ++ edit.2.2.toList ++ text.drop edit.2.1

/-- From a place on, the stretches follow one another within the text. -/
def Ordered (text : List Char) : Nat → List (Nat × Nat × String) → Prop
  | _, [] => True
  | place, (start, stop, _) :: edits => place ≤ start ∧ start ≤ stop ∧ stop ≤ text.length ∧ Ordered text stop edits

variable {changes : List (Nat × Nat × String)}

theorem Ordered.mono (ordered : Ordered text stop changes) (le : place ≤ stop) : Ordered text place changes := by
  cases changes with
  | nil => trivial
  | cons change changes =>
      obtain ⟨first, rest⟩ := ordered
      exact ⟨Nat.le_trans le first, rest⟩

theorem edits_ordered (laid : Laid text place tokens) (previous : Option Token) :
    Ordered text place (edits mapping (references previous tokens)) := by
  induction tokens generalizing place previous with
  | nil => trivial
  | cons t tokens ih =>
      obtain ⟨first, whole, inside, -, laid⟩ := laid
      have later := ih laid (some t)
      have skipped := later.mono (Nat.le_trans first whole)
      rw [references]
      split
      · rw [edits, List.filterMap_cons]
        cases mapping.lookup t.text with
        | none => exact skipped
        | some image => exact ⟨first, whole, inside, later⟩
      · exact skipped

/-- Stretches of a text one behind the other. -/
theorem slice_append (text : List Char) {a b c : Nat} (first : a ≤ b) (second : b ≤ c) :
    slice text a b ++ slice text b c = slice text a c := by
  have behind : text.drop b = (text.drop a).drop (b - a) := by rw [List.drop_drop, Nat.add_sub_cancel' first]
  have length : c - a = (b - a) + (c - b) := by omega
  rw [slice, slice, slice, behind, length, List.take_add]

theorem slice_append_drop (text : List Char) (first : place ≤ stop) :
    slice text place stop ++ text.drop stop = text.drop place := by
  have behind : text.drop stop = (text.drop place).drop (stop - place) := by
    rw [List.drop_drop, Nat.add_sub_cancel' first]
  rw [slice, behind, List.take_append_drop]

theorem applyEdits_cons {start : Nat} (image : String) (changes : List (Nat × Nat × String)) (first : place ≤ start)
    (whole : start ≤ stop) : applyEdits ((start, stop, image) :: changes) place (text.drop place) =
      slice text place start ++ (image.toList ++ applyEdits changes stop (text.drop stop)) := by
  rw [applyEdits, List.drop_drop, Nat.add_sub_cancel' (Nat.le_trans first whole), List.append_assoc]
  rfl

/-- What stands before the first stretch is copied. -/
theorem applyEdits_skip (ordered : Ordered text stop changes) (le : place ≤ stop) :
    applyEdits changes place (text.drop place) = slice text place stop ++ applyEdits changes stop (text.drop stop) := by
  cases changes with
  | nil => exact (slice_append_drop text le).symm
  | cons change changes =>
      obtain ⟨start, stop', image⟩ := change
      obtain ⟨first, whole, -⟩ := ordered
      rw [applyEdits_cons image changes (Nat.le_trans le first) whole, applyEdits_cons image changes first whole,
        ← slice_append text le first, List.append_assoc]

/-- Writing the edits from the last to the first is writing them from left to right. -/
theorem foldr_splice (ordered : Ordered text place changes) (inside : place ≤ text.length) :
    changes.foldr splice text = text.take place ++ applyEdits changes place (text.drop place) := by
  induction changes generalizing place with
  | nil => exact (List.take_append_drop place text).symm
  | cons change changes ih =>
      obtain ⟨start, stop, image⟩ := change
      obtain ⟨first, whole, inside', later⟩ := ordered
      have short : (text.take stop).length = stop := List.length_take_of_le inside'
      have front : text.take place ++ slice text place start = text.take start := by
        rw [slice, ← List.take_add, Nat.add_sub_cancel' first]
      rw [List.foldr_cons, ih later inside', splice, applyEdits_cons image changes first whole, ← List.append_assoc,
        front, List.take_append_of_le_length (short.symm ▸ whole), List.take_take, Nat.min_eq_left whole,
        List.drop_left' short, List.append_assoc]

/-! ### Words in the places of tokens -/

/-- The text with a word in the place of each token, from a place on. -/
def exchange (text : List Char) : Nat → List Token → List String → List Char
  | place, t :: tokens, word :: words =>
      slice text place t.start ++ (word.toList ++ exchange text t.stop tokens words)
  | place, _, _ => text.drop place

/-- The tokens themselves in their places are the text. -/
theorem exchange_own (laid : Laid text place tokens) :
    exchange text place tokens (tokens.map (·.text)) = text.drop place := by
  induction tokens generalizing place with
  | nil => rfl
  | cons t tokens ih =>
      obtain ⟨first, whole, -, own, laid⟩ := laid
      rw [List.map_cons, exchange, ih laid, ← own, slice_append_drop text whole, slice_append_drop text first]

theorem applyEdits_references (laid : Laid text place tokens) (previous : Option Token) :
    applyEdits (edits mapping (references previous tokens)) place (text.drop place) =
      exchange text place tokens (renamedWords mapping previous tokens) := by
  induction tokens generalizing place previous with
  | nil => rfl
  | cons t tokens ih =>
      obtain ⟨first, whole, inside, own, laid⟩ := laid
      have later := @edits_ordered text t.stop mapping tokens laid (some t)
      -- a token that is not renamed is copied with what stands before it
      have kept : applyEdits (edits mapping (references (some t) tokens)) place (text.drop place) =
          slice text place t.start ++
            (t.text.toList ++ exchange text t.stop tokens (renamedWords mapping (some t) tokens)) := by
        rw [applyEdits_skip later (Nat.le_trans first whole), ← slice_append text first whole, own, ih laid,
          List.append_assoc]
      rw [references, renamedWords, exchange]
      split
      · rw [edits, List.filterMap_cons]
        cases mapping.lookup t.text with
        | none => exact kept
        | some image =>
            rw [← ih laid (some t)]
            exact applyEdits_cons image _ first whole
      · exact kept

/-- Tokens that lie in a text, however they were found.  Exchanging the references among them, from left to right or
from the last to the first, writes the words for the tokens in their places and copies what stands between them. -/
theorem Laid.substitutes (laid : Laid text 0 tokens) (mapping : List (String × String)) :
    exchange text 0 tokens (tokens.map (·.text)) = text ∧
      ∃ words, Renamed mapping tokens words ∧
        applyEdits (edits mapping (references none tokens)) 0 text = exchange text 0 tokens words ∧
        (edits mapping (references none tokens)).foldr splice text = exchange text 0 tokens words := by
  have written := @applyEdits_references text 0 mapping tokens laid none
  have spliced := foldr_splice (@edits_ordered text 0 mapping tokens laid none) (Nat.zero_le _)
  exact ⟨exchange_own laid, renamedWords mapping none tokens, renamedWords_renamed mapping tokens, written,
    spliced.trans written⟩

/-! ### Renaming -/

/-- The tokens of a text, or why it has none. -/
def lexed (s : String) : Except LexError (List Token) :=
  lexFrom (s.toList.length + 1) {} true 0 [] s.toList

theorem lexed_laid {s : String} (read : lexed s = .ok tokens) : Laid s.toList 0 tokens := by
  obtain ⟨more, rfl, laid⟩ := @lexFrom_laid s.toList s.toList _ 0 _ _ [] tokens rfl (Nat.zero_le _) read
  exact laid

theorem tokenize_eq (s : String) : tokenize s = match lexed s with
    | .ok tokens => .ok tokens
    | .error .malformed => .ok []
    | .error (.fault f) => .error f := rfl

theorem renameIdentifiers_read {s : String} (mapping : List (String × String)) (read : tokenize s = .ok tokens) :
    renameIdentifiers s mapping =
      .ok (String.ofList (applyEdits (edits mapping (references none tokens)) 0 s.toList)) := by
  unfold renameIdentifiers
  split
  · rename_i empty
    have idle : edits [] (references none tokens) = [] := by simp [edits]
    rw [List.isEmpty_iff.mp empty, idle, applyEdits, String.ofList_toList]
    rfl
  · rw [read]
    rfl

/-- Renaming is the substitution of the references of a text that can be read, all at once. -/
theorem renameIdentifiers_substitutes (s : String) (mapping : List (String × String)) :
    (∀ tokens, lexed s = .ok tokens →
      Laid s.toList 0 tokens ∧ exchange s.toList 0 tokens (tokens.map (·.text)) = s.toList ∧
        ∃ words, Renamed mapping tokens words ∧
          renameIdentifiers s mapping = .ok (String.ofList (exchange s.toList 0 tokens words)) ∧
          (edits mapping (references none tokens)).foldr splice s.toList = exchange s.toList 0 tokens words) ∧
    (lexed s = .error .malformed → renameIdentifiers s mapping = .ok s) ∧
    ∀ f, lexed s = .error (.fault f) →
      renameIdentifiers s mapping = if mapping.isEmpty then .ok s else .error f := by
  refine ⟨fun tokens read => ?_, fun refused => ?_, fun f failed => ?_⟩
  · have laid := lexed_laid read
    have tokens' : tokenize s = .ok tokens := by rw [tokenize_eq, read]
    obtain ⟨own, words, renamed, written, spliced⟩ := laid.substitutes mapping
    exact ⟨laid, own, words, renamed, by rw [renameIdentifiers_read mapping tokens', written], spliced⟩
  · have none : tokenize s = .ok [] := by rw [tokenize_eq, refused]
    rw [renameIdentifiers_read mapping none]
    exact congrArg Except.ok String.ofList_toList
  · have fault : tokenize s = .error f := by rw [tokenize_eq, failed]
    unfold renameIdentifiers
    rw [fault]
    split <;> rfl

theorem renameIdentifiers_substitutes_swap : ∃ tokens words, lexed "a + b.a" = .ok tokens ∧
    Renamed [("a", "b"), ("b", "a")] tokens words ∧
    renameIdentifiers "a + b.a" [("a", "b"), ("b", "a")] =
      .ok (String.ofList (exchange "a + b.a".toList 0 tokens words)) ∧
    renameIdentifiers "a + b.a" [("a", "b"), ("b", "a")] = .ok "b + a.a" := by
  have readable : (lexed "a + b.a").toOption.isSome = true := by decide +kernel
  obtain ⟨tokens, read⟩ : ∃ tokens, lexed "a + b.a" = .ok tokens := by
    cases read : lexed "a + b.a" with
    | ok tokens => exact ⟨tokens, rfl⟩
    | error e =>
        rw [read] at readable
        cases readable
  obtain ⟨-, -, words, renamed, written, -⟩ :=
    (renameIdentifiers_substitutes "a + b.a" [("a", "b"), ("b", "a")]).1 tokens read
  exact ⟨tokens, words, read, renamed, written, by decide +kernel⟩

/-- A slash behind a lone bracket makes the reader look back too far, and the name of a method is no reference. -/
theorem renameIdentifiers_breaks :
    (∀ tokens, lexed ") / a" ≠ .ok tokens) ∧
      renameIdentifiers ") / a" [("a", "b")] = .error .historyExhausted ∧
      renameIdentifiers "(\x7b a() \x7b return 1; \x7d \x7d)" [("a", "b")] =
        .ok "(\x7b b() \x7b return 1; \x7d \x7d)" := by
  have unread : (lexed ") / a").toOption.isNone = true := by decide +kernel
  refine ⟨fun tokens read => ?_, by decide +kernel, by decide +kernel⟩
  rw [read] at unread
  cases unread

end ReactMigration.Script
