import ReactMigration.Proofs.MemberWrites
import ReactMigration.Proofs.Sweeping

/-!
A text in blocks, one for each place where the instance is addressed.

A pass over the members of the instance looks at the places where `this.` stands at a word boundary.  Cut
at these places, a text becomes a list of blocks, and a pass becomes a list function that rewrites the
front of some blocks.
-/

namespace ReactMigration.Recast

open ReactMigration.Text
open ReactMigration.Text.Pattern (Captures Sweeps isName isPath atBoundary)

variable {c d e : Cursor} {m : Match} {p : Pattern} {f : Match → List Char}

/-! ### Blocks -/

/-- A stretch of text.  A live block stands behind a keyword that addresses the instance. -/
structure Block where
  live : Bool
  text : List Char
  deriving Repr, DecidableEq

def Block.chars (b : Block) : List Char :=
  (if b.live then instanceDot else []) ++ b.text

/-- The text of blocks. -/
def printed (bs : List Block) : List Char :=
  bs.flatMap Block.chars

theorem printed_cons (b : Block) (bs : List Block) : printed (b :: bs) = b.chars ++ printed bs := rfl

/-- No keyword of the instance starts within the text, if a word does not run into it. -/
def Calm (x : List Char) : Prop :=
  ∀ y z, x = y ++ (instanceDot ++ z) → ∃ a ∈ y.getLast?, isWord a = true

/-- The text ends with a character that is part of no member path. -/
def EndsFresh (x : List Char) : Prop :=
  ∃ a ∈ x.getLast?, isPath a = false

/-- Blocks hold no further keyword, are separated, and start with the keyword or a name. -/
def Settled : List Block → Prop
  | [] => True
  | b :: bs => Calm b.text ∧ (bs ≠ [] → EndsFresh b.text) ∧
      (∀ b' ∈ bs.head?, b'.live = true ∨ ∃ a ∈ b'.text.head?, isName a = true) ∧ Settled bs

/-- The instance is addressed at the cursor. -/
def AtInstance (c : Cursor) : Prop :=
  atBoundary c = true ∧ instanceDot <+: c.after

theorem isPath_of_mem_instanceDot {a : Char} (mem : a ∈ instanceDot) : isPath a = true := by
  have all : instanceDot.all isPath = true := by decide
  exact List.all_eq_true.mp all a mem

theorem getLast?_append_visible {x : List Char} (visible : x ≠ []) (y : List Char) :
    (y ++ x).getLast? = x.getLast? := by
  obtain rfl | ⟨x, a, rfl⟩ := List.eq_nil_or_concat x
  · exact absurd rfl visible
  · simp

/-- Two keywords do not overlap. -/
theorem keyword_apart {t : Char} {rest y z : List Char}
    (same : instanceDot ++ rest = (t :: y) ++ (instanceDot ++ z)) : instanceDot.length ≤ (t :: y).length := by
  rcases y with _ | ⟨_, _ | ⟨_, _ | ⟨_, _ | ⟨_, y⟩⟩⟩⟩
  · simp [instanceDot] at same
  · simp [instanceDot] at same
  · simp [instanceDot] at same
  · simp [instanceDot] at same
  · simp [instanceDot]

/-- Within calm text the instance is not addressed. -/
theorem not_atInstance {w x y rest : List Char} (calm : Calm (w ++ x)) (reached : c.Spans w d)
    (after : d.after = x ++ rest) (ends : rest ≠ [] → EndsFresh x) (spans : d.Spans y e)
    (within : y.length < x.length) : ¬ AtInstance e := by
  rintro ⟨bound, z, starts⟩
  obtain ⟨x', rfl, after'⟩ : ∃ x', x = y ++ x' ∧ e.after = x' ++ rest := by
    obtain ⟨x', same, rest'⟩ | ⟨x', same, rest'⟩ := List.append_eq_append_iff.mp (spans.after.symm.trans after)
    · exact ⟨x', same, rest'⟩
    · rw [same, List.length_append] at within
      omega
  rw [after'] at starts
  have visible : x' ≠ [] := by
    rintro rfl
    simp at within
  obtain ⟨z', rfl⟩ | ⟨more, z', same⟩ : (∃ z', x' = instanceDot ++ z') ∨ rest ≠ [] ∧ ∃ z', instanceDot = x' ++ z' := by
    obtain ⟨z', same, -⟩ | ⟨z', same, rest'⟩ := List.append_eq_append_iff.mp starts
    · exact .inl ⟨z', same⟩
    · cases z' with
      | nil => exact .inl ⟨[], by simpa using same.symm⟩
      | cons b z' => exact .inr ⟨by simp [rest'], b :: z', same⟩
  · -- the keyword lies within the text, behind a word
    obtain ⟨a, last, word⟩ := calm (w ++ y) z' (by simp)
    have before : e.before.head? = some a := by
      rw [spans.before, reached.before, ← List.append_assoc, ← List.reverse_append, List.head?_append,
        List.head?_reverse, last]
      rfl
    have here : e.after.head? = some 't' := by
      rw [after']
      rfl
    rw [atBoundary, before, here] at bound
    simp only [Option.map_some, Option.getD_some, word] at bound
    revert bound
    decide
  · -- the keyword would run over the end of the text
    obtain ⟨a, last, fresh⟩ := ends more
    rw [getLast?_append_visible visible] at last
    have part := isPath_of_mem_instanceDot (a := a) (by
      rw [same]
      exact List.mem_append_left _ (List.mem_of_getLast? last))
    rw [fresh] at part
    cases part

/-! ### Cutting a text into blocks -/

/-- The keyword never stands directly behind a dollar sign or a dot. -/
def Clean (cs : List Char) : Prop :=
  ¬ '$' :: instanceDot <:+: cs ∧ ¬ '.' :: instanceDot <:+: cs

instance (cs : List Char) : Decidable (Clean cs) :=
  inferInstanceAs (Decidable (¬ '$' :: instanceDot <:+: cs ∧ ¬ '.' :: instanceDot <:+: cs))

theorem Clean.fresh {x z : List Char} {a : Char} (clean : Clean (x ++ (instanceDot ++ z))) (last : a ∈ x.getLast?)
    (notWord : isWord a = false) : isPath a = false := by
  obtain rfl | ⟨x, b, rfl⟩ := List.eq_nil_or_concat x
  · cases last
  · obtain rfl : b = a := by simpa using last
    have behind : b :: instanceDot <:+: x.concat b ++ (instanceDot ++ z) := ⟨x, z, by simp⟩
    have dollar : b ≠ '$' := by
      rintro rfl
      exact clean.1 behind
    have dot : b ≠ '.' := by
      rintro rfl
      exact clean.2 behind
    simp [isPath, isName, notWord, dollar, dot]

/-- A text from some place on: what comes before the first keyword, and the blocks from there on. -/
theorem exists_blocks_from (n : Nat) (before cs : List Char) (short : cs.length ≤ n)
    (clean : Clean (before ++ cs)) :
    ∃ lead bs, cs = lead ++ printed bs ∧ (∀ b ∈ bs, b.live = true) ∧
      (∀ y z, lead = y ++ (instanceDot ++ z) → ∃ a ∈ (before ++ y).getLast?, isWord a = true) ∧
      (bs ≠ [] → ∀ a ∈ (before ++ lead).getLast?, isWord a = false) ∧ Settled bs := by
  induction n generalizing before cs with
  | zero =>
      obtain rfl := List.length_eq_zero_iff.mp (Nat.le_zero.mp short)
      exact ⟨[], [], rfl, by simp, by simp [instanceDot], by simp, trivial⟩
  | succ n ih =>
      by_cases here : instanceDot <+: cs ∧ ∀ a ∈ before.getLast?, isWord a = false
      · obtain ⟨⟨post, rfl⟩, notWord⟩ := here
        obtain ⟨lead, bs, rfl, live, calm, bound, settled⟩ := ih (before ++ instanceDot) post
          (by simp [instanceDot] at short; omega) (by simpa using clean)
        refine ⟨[], ⟨true, lead⟩ :: bs, by simp [printed_cons, Block.chars], by simpa using live,
          by simp [instanceDot], by simpa using notWord, ?_, ?_, ?_, settled⟩
        · intro y z split
          obtain ⟨a, last, word⟩ := calm y z split
          cases y with
          | nil =>
              obtain rfl : '.' = a := by simpa [instanceDot] using last
              revert word
              decide
          | cons b y =>
              rw [getLast?_append_visible (List.cons_ne_nil b y)] at last
              exact ⟨a, last, word⟩
        · intro more
          obtain ⟨b, bs, rfl⟩ := List.exists_cons_of_ne_nil more
          have chars : b.chars = instanceDot ++ b.text := by simp [Block.chars, live b List.mem_cons_self]
          have clean' : Clean (before ++ instanceDot ++ lead ++ (instanceDot ++ (b.text ++ printed bs))) := by
            simpa [printed_cons, chars] using clean
          have visible : before ++ instanceDot ++ lead ≠ [] := by simp [instanceDot]
          obtain ⟨a, last⟩ := Option.isSome_iff_exists.mp (List.getLast?_isSome.mpr visible)
          have fresh := clean'.fresh last (bound more a last)
          cases lead with
          | nil =>
              obtain rfl : '.' = a := by simpa [instanceDot] using last
              exact absurd fresh (by decide)
          | cons x lead =>
              rw [getLast?_append_visible (List.cons_ne_nil x lead)] at last
              exact ⟨a, last, fresh⟩
        · exact fun b mem => .inl (live b (List.mem_of_mem_head? mem))
      · cases cs with
        | nil => exact ⟨[], [], rfl, by simp, by simp [instanceDot], by simp, trivial⟩
        | cons a cs =>
            obtain ⟨lead, bs, rfl, live, calm, bound, settled⟩ := ih (before ++ [a]) cs
              (Nat.le_of_succ_le_succ short) (by simpa using clean)
            refine ⟨a :: lead, bs, rfl, live, ?_, by simpa using bound, settled⟩
            intro y z split
            cases y with
            | nil =>
                have starts : instanceDot <+: a :: lead ++ printed bs :=
                  ⟨z ++ printed bs, by rw [split]; simp⟩
                simp only [not_and] at here
                have running := here starts
                simp only [Classical.not_forall, Bool.not_eq_false] at running
                obtain ⟨b, last, word⟩ := running
                exact ⟨b, by simpa using last, word⟩
            | cons b y =>
                obtain ⟨rfl, inner⟩ := List.cons.inj split
                obtain ⟨b, last, word⟩ := calm y z inner
                exact ⟨b, by simpa using last, word⟩

/-- A clean text is that of settled blocks. -/
theorem exists_blocks {cs : List Char} (clean : Clean cs) : ∃ bs, Settled bs ∧ printed bs = cs := by
  obtain ⟨lead, bs, rfl, live, calm, bound, settled⟩ :=
    exists_blocks_from cs.length [] cs (Nat.le_refl _) clean
  cases lead with
  | nil => exact ⟨bs, settled, rfl⟩
  | cons x lead =>
      refine ⟨⟨false, x :: lead⟩ :: bs, ⟨calm, fun more => ?_, ?_, settled⟩, rfl⟩
      · obtain ⟨b, bs, rfl⟩ := List.exists_cons_of_ne_nil more
        have chars : b.chars = instanceDot ++ b.text := by simp [Block.chars, live b List.mem_cons_self]
        have clean' : Clean (x :: lead ++ (instanceDot ++ (b.text ++ printed bs))) := by
          simpa [printed_cons, chars] using clean
        obtain ⟨a, last⟩ := Option.isSome_iff_exists.mp (List.getLast?_isSome.mpr (List.cons_ne_nil x lead))
        exact ⟨a, last, clean'.fresh last (bound more a last)⟩
      · exact fun b mem => .inl (live b (List.mem_of_mem_head? mem))

/-! ### Rules -/

/-- How a pass rewrites the front of a live block: a member, what must follow it, a condition on the text
behind that, and what is written in its place. -/
structure Rule where
  member : List Char
  tails : List (List Char)
  test : List Char → List Char → Bool
  live : Bool
  result : List Char → List Char

/-- The rewritten block, `rest` being the text behind the block. -/
def Rule.recast? (r : Rule) (text rest : List Char) : Option Block :=
  (r.tails.find? fun tail => (r.member ++ tail).isPrefixOf text &&
      r.test tail (text.drop (r.member ++ tail).length ++ rest)).map fun tail =>
    let behind := text.drop (r.member ++ tail).length
    ⟨r.live, r.result (behind ++ rest) ++ behind⟩

/-- The rule on all live blocks. -/
def Rule.pass (r : Rule) : List Block → List Block
  | [] => []
  | b :: bs => (if b.live then (r.recast? b.text (printed bs)).getD b else b) :: r.pass bs

theorem Rule.recast?_eq_some {r : Rule} {text rest : List Char} {b : Block}
    (found : r.recast? text rest = some b) : ∃ tail ∈ r.tails, ∃ behind, text = r.member ++ (tail ++ behind) ∧
      r.test tail (behind ++ rest) = true ∧ b = ⟨r.live, r.result (behind ++ rest) ++ behind⟩ := by
  obtain ⟨tail, first, rfl⟩ := Option.map_eq_some_iff.mp found
  have holds := List.find?_some first
  rw [Bool.and_eq_true, List.isPrefixOf_iff_prefix] at holds
  obtain ⟨⟨behind, rfl⟩, test⟩ := holds
  rw [List.drop_left] at test
  refine ⟨tail, List.mem_of_find?_eq_some first, behind, List.append_assoc .., test, ?_⟩
  simp only [List.drop_left]

theorem Rule.recast?_isSome {r : Rule} {tail behind rest : List Char} (mem : tail ∈ r.tails)
    (test : r.test tail (behind ++ rest) = true) :
    (r.recast? (r.member ++ (tail ++ behind)) rest).isSome = true := by
  rw [recast?, Option.isSome_map, List.find?_isSome]
  refine ⟨tail, mem, ?_⟩
  rw [← List.append_assoc, List.drop_left, test, Bool.and_true, List.isPrefixOf_iff_prefix]
  exact List.prefix_append _ _

/-- The rule says what replacing the matches of the pattern does. -/
structure Rule.Reads (r : Rule) (p : Pattern) (f : Match → List Char) : Prop where
  steady : p.Steady
  takes : ∀ c d h, p.Takes c [] d h ↔ atBoundary c = true ∧ (∃ tail ∈ r.tails,
    c.Spans (instanceDot ++ (r.member ++ tail)) d ∧ r.test tail d.after = true) ∧ h = []
  /-- Where a block ends, no match goes on. -/
  joined : ∀ tail ∈ r.tails, ∀ y a b z, r.member ++ tail = y ++ a :: b :: z → isName b = true →
    isPath a = true
  apart : ∀ tail ∈ r.tails, ∀ tail' ∈ r.tails, tail <+: tail' → tail = tail'
  writes : ∀ c m, p.matchAt? c = some m →
    f m = (if r.live then instanceDot else []) ++ r.result m.rest.after

/-- What a rule matches lies within its block. -/
theorem Rule.Reads.within {r : Rule} (reads : r.Reads p f) {tail text rest : List Char} (mem : tail ∈ r.tails)
    (after : c.after = instanceDot ++ (text ++ rest)) (ends : rest ≠ [] → EndsFresh text)
    (starts : ∀ a ∈ rest.head?, isName a = true)
    (spans : c.Spans (instanceDot ++ (r.member ++ tail)) d) :
    ∃ behind, text = r.member ++ (tail ++ behind) ∧ d.after = behind ++ rest := by
  have same : text ++ rest = r.member ++ tail ++ d.after := by
    have := after.symm.trans spans.after
    rw [List.append_assoc] at this
    exact List.append_cancel_left this
  obtain ⟨z, hm, hd⟩ | ⟨z, ht, hr⟩ := List.append_eq_append_iff.mp same
  · -- the match would run into the next block
    cases z with
    | nil => exact ⟨[], by simpa using hm.symm, by simpa using hd.symm⟩
    | cons b z =>
        exfalso
        obtain ⟨a, last, fresh⟩ := ends (by simp [hd])
        obtain rfl | ⟨text, a', rfl⟩ := List.eq_nil_or_concat text
        · cases last
        · obtain rfl : a' = a := by simpa using last
          have path := reads.joined tail mem text a' b z (by simpa using hm) (starts b (by simp [hd]))
          rw [fresh] at path
          cases path
  · exact ⟨z, by rw [ht, List.append_assoc], hr⟩

/-- At a live block the pattern matches what the rule rewrites. -/
theorem Rule.Reads.atBlock {r : Rule} (reads : r.Reads p f) {text rest : List Char}
    (after : c.after = instanceDot ++ (text ++ rest)) (bound : atBoundary c = true)
    (ends : rest ≠ [] → EndsFresh text) (starts : ∀ a ∈ rest.head?, isName a = true) :
    (r.recast? text rest = none ∧ p.matchAt? c = none) ∨
      ∃ m front behind, p.matchAt? c = some m ∧ text = front ++ behind ∧
        c.Spans (instanceDot ++ front) m.rest ∧
        ∃ b, r.recast? text rest = some b ∧ b.chars = f m ++ behind := by
  cases found : p.matchAt? c with
  | none =>
      refine .inl ⟨?_, rfl⟩
      cases applied : r.recast? text rest with
      | none => rfl
      | some b =>
          obtain ⟨tail, mem, behind, rfl, test, -⟩ := recast?_eq_some applied
          have split : c.after = instanceDot ++ (r.member ++ tail) ++ (behind ++ rest) := by
            rw [after]
            simp
          have spans := Cursor.spans_advance split
          have able := Pattern.matchAt?_isSome reads.steady ⟨_, _, (reads.takes _ _ _).mpr
            ⟨bound, ⟨tail, mem, spans, by rwa [spans.remaining split]⟩, rfl⟩⟩
          rw [found] at able
          cases able
  | some m =>
      obtain ⟨taken, -⟩ := Pattern.matchAt?_eq_some found
      obtain ⟨-, ⟨tail, mem, spans, test⟩, -⟩ := (reads.takes _ _ _).mp taken
      obtain ⟨behind, rfl, rest'⟩ := reads.within mem after ends starts spans
      rw [rest'] at test
      refine .inr ⟨m, r.member ++ tail, behind, rfl, (List.append_assoc ..).symm, spans, ?_⟩
      obtain ⟨b, applied⟩ := Option.isSome_iff_exists.mp (recast?_isSome mem test)
      refine ⟨b, applied, ?_⟩
      -- the rule finds the same tail
      obtain ⟨tail', mem', behind', same, -, rfl⟩ := recast?_eq_some applied
      have tails : tail = tail' := by
        have same := List.append_cancel_left same
        obtain ⟨z, rfl, -⟩ | ⟨z, rfl, -⟩ := List.append_eq_append_iff.mp same
        · exact reads.apart _ mem _ mem' ⟨z, rfl⟩
        · exact (reads.apart _ mem' _ mem ⟨z, rfl⟩).symm
      subst tails
      obtain rfl := List.append_cancel_left (List.append_cancel_left same)
      rw [reads.writes _ _ found, rest', Block.chars, List.append_assoc]

/-- The text behind a block starts with a name. -/
theorem Settled.starts {bs : List Block}
    (names : ∀ b ∈ bs.head?, b.live = true ∨ ∃ a ∈ b.text.head?, isName a = true) :
    ∀ a ∈ (printed bs).head?, isName a = true := by
  intro a head
  cases bs with
  | nil => cases head
  | cons b bs =>
      rw [printed_cons, Block.chars] at head
      obtain live | ⟨a', first, letter⟩ := names b rfl
      · rw [live] at head
        cases head
        decide
      · cases kind : b.live with
        | true =>
            rw [kind] at head
            cases head
            decide
        | false =>
            rw [kind] at head
            cases text : b.text with
            | nil => simp [text] at first
            | cons x text =>
                rw [text] at head first
                cases head
                cases first
                exact letter

/-- Replacing the matches of the pattern in the text of blocks is the pass over the blocks. -/
theorem Rule.Reads.sweeps {r : Rule} (reads : r.Reads p f) {bs : List Block} (settled : Settled bs)
    (fresh : bs ≠ [] → NotNext isPath c.before) (after : c.after = printed bs) :
    Sweeps p f c (printed (r.pass bs)) := by
  have onlyThere {e : Cursor} (elsewhere : ¬ AtInstance e) : p.matchAt? e = none := by
    cases found : p.matchAt? e with
    | none => rfl
    | some m =>
        obtain ⟨taken, -⟩ := Pattern.matchAt?_eq_some found
        obtain ⟨bound, ⟨tail, -, spans, -⟩, -⟩ := (reads.takes _ _ _).mp taken
        exact absurd ⟨bound, r.member ++ tail ++ m.rest.after, by rw [spans.after]; simp⟩ elsewhere
  induction bs generalizing c with
  | nil =>
      refine .done after (onlyThere ?_)
      rintro ⟨-, z, starts⟩
      rw [after] at starts
      cases starts
  | cons b bs ih =>
      obtain ⟨calm, ends, names, rest⟩ := settled
      have starts := Settled.starts names
      have separate : printed bs ≠ [] → EndsFresh b.text := by
        intro more
        refine ends ?_
        rintro rfl
        exact more rfl
      -- from within the block the walk copies it to its end and goes on
      have further {w x : List Char} {k d : Cursor} (split : b.text = w ++ x) (reached : k.Spans w d)
          (behind : d.after = x ++ printed bs) : Sweeps p f d (x ++ printed (r.pass bs)) := by
        rw [split] at calm
        have spans := Cursor.spans_advance behind
        refine .skip spans (fun y e toward within => onlyThere ?_)
          (ih rest (fun more a head => ?_) (spans.remaining behind))
        · refine not_atInstance calm reached behind (fun more => ?_) toward within
          obtain ⟨a, last, fresh⟩ := separate more
          refine ⟨a, ?_, fresh⟩
          rw [split] at last
          cases x with
          | nil => simp at within
          | cons b x => rwa [getLast?_append_visible (List.cons_ne_nil b x)] at last
        · obtain ⟨a', last, fresh⟩ := ends more
          rw [spans.before, reached.before, ← List.append_assoc, ← List.reverse_append, ← split,
            List.head?_append, List.head?_reverse, last] at head
          cases head
          exact fresh
      rw [printed_cons] at after
      cases kind : b.live with
      | false =>
          have chars : b.chars = b.text := by simp [Block.chars, kind]
          rw [chars] at after
          simp only [pass, kind, Bool.false_eq_true, if_false, printed_cons, chars]
          exact further (w := []) rfl (.refl c) after
      | true =>
          have chars : b.chars = instanceDot ++ b.text := by simp [Block.chars, kind]
          rw [chars, List.append_assoc] at after
          have bound := atBoundary_of_keyword (fresh (List.cons_ne_nil b bs)) after
          simp only [pass, kind, if_true, printed_cons]
          obtain ⟨unchanged, unmatched⟩ | ⟨m, front, behind, found, text, spans, b', applied, same⟩ :=
            reads.atBlock after bound separate starts
          · rw [unchanged, Option.getD_none, chars, List.append_assoc]
            have dot := Cursor.spans_advance after
            refine .skip dot (fun y e toward within => ?_)
              (further (w := []) rfl (.refl _) (dot.remaining after))
            cases y with
            | nil =>
                obtain rfl := toward.unique (.refl c)
                exact unmatched
            | cons t y =>
                -- within the keyword no other one starts
                refine onlyThere ?_
                rintro ⟨-, z, inner⟩
                have same : instanceDot ++ (b.text ++ printed bs) = (t :: y) ++ (instanceDot ++ z) := by
                  rw [inner, ← toward.after, after]
                exact absurd within (Nat.not_lt.mpr (keyword_apart same))
          · rw [applied, Option.getD_some, same, List.append_assoc]
            refine .put found ?_
            have dot := Cursor.spans_advance after
            have split : c.after = instanceDot ++ (front ++ (behind ++ printed bs)) := by
              rw [after, text, List.append_assoc]
            have toRest := Cursor.spans_advance (dot.remaining split)
            rw [(dot.trans toRest).unique spans] at toRest
            exact further text toRest (spans.remaining (by rw [after, text]; simp))

theorem Rule.Reads.replaceWith {r : Rule} {g : Match → String} (reads : r.Reads p fun m => (g m).toList)
    {bs : List Block} (settled : Settled bs) {text : String} (blocks : text.toList = printed bs) :
    (p.replaceWith g text).toList = printed (r.pass bs) := by
  refine Sweeps.unique (Pattern.replaceWith_sweeps (fun c m found => ?_) g text)
    (reads.sweeps settled (fun _ => by simp [NotNext, Cursor.start]) blocks)
  obtain ⟨taken, spans, -⟩ := Pattern.matchAt?_eq_some found
  obtain ⟨-, ⟨tail, -, whole, -⟩, -⟩ := (reads.takes _ _ _).mp taken
  intro empty
  rw [empty] at spans
  have := congrArg List.length (whole.after.symm.trans spans.after)
  simp [instanceDot] at this
  omega

/-- The blocks are kept settled if every rewritten block is calm, separated, and starts with the keyword or a
name. -/
theorem Rule.pass_settled {r : Rule} {bs : List Block} (settled : Settled bs)
    (each : ∀ b bs' b', b :: bs' <:+ bs → b.live = true → r.recast? b.text (printed bs') = some b' →
      Calm b'.text ∧ (bs' ≠ [] → EndsFresh b'.text) ∧ (b'.live = true ∨ ∃ a ∈ b'.text.head?, isName a = true)) :
    Settled (r.pass bs) := by
  induction bs with
  | nil => trivial
  | cons b bs ih =>
      obtain ⟨calm, ends, names, rest⟩ := settled
      have settled' := ih rest fun b₁ bs₁ b₂ suffix =>
        each b₁ bs₁ b₂ (suffix.trans (List.suffix_cons b bs))
      have more {bs : List Block} (visible : r.pass bs ≠ []) : bs ≠ [] := by
        rintro rfl
        exact visible rfl
      have names' : ∀ b' ∈ (r.pass bs).head?, b'.live = true ∨ ∃ a ∈ b'.text.head?, isName a = true := by
        cases bs with
        | nil => simp [pass]
        | cons b₁ bs =>
            intro b' head
            obtain rfl := Option.some.inj head
            cases kind : b₁.live with
            | false => simpa [kind] using names b₁ rfl
            | true =>
                cases applied : r.recast? b₁.text (printed bs) with
                | none => simp [kind]
                | some b₂ =>
                    simpa using (each b₁ bs b₂ (List.suffix_cons b (b₁ :: bs)) kind applied).2.2
      rw [pass]
      cases kind : b.live with
      | false => exact ⟨calm, fun visible => ends (more visible), names', settled'⟩
      | true =>
          cases applied : r.recast? b.text (printed bs) with
          | none => exact ⟨calm, fun visible => ends (more visible), names', settled'⟩
          | some b' =>
              obtain ⟨calm', ends', -⟩ := each b bs b' (List.suffix_refl _) kind applied
              exact ⟨calm', fun visible => ends' (more visible), names', settled'⟩

/-- The instance is addressed only where a live block starts. -/
theorem exists_live_of_atInstance {bs : List Block} {y : List Char} (settled : Settled bs)
    (after : c.after = printed bs) (spans : c.Spans y e) (here : AtInstance e) :
    ∃ before b rest, bs = before ++ b :: rest ∧ b.live = true ∧ y = printed before := by
  induction bs generalizing c y with
  | nil =>
      obtain ⟨-, z, starts⟩ := here
      have := spans.after.symm.trans after
      rw [← starts] at this
      simp [printed, instanceDot] at this
  | cons b bs ih =>
      obtain ⟨calm, ends, -, rest⟩ := settled
      rw [printed_cons] at after
      by_cases inside : y.length < b.chars.length
      · have separate : printed bs ≠ [] → EndsFresh b.text := by
          intro more
          refine ends ?_
          rintro rfl
          exact more rfl
        cases kind : b.live with
        | false =>
            have chars : b.chars = b.text := by simp [Block.chars, kind]
            rw [chars] at after inside
            exact absurd here (not_atInstance (w := []) calm (.refl c) after separate spans inside)
        | true =>
            have chars : b.chars = instanceDot ++ b.text := by simp [Block.chars, kind]
            rw [chars, List.append_assoc] at after
            cases y with
            | nil => exact ⟨[], b, bs, rfl, kind, rfl⟩
            | cons t y =>
                exfalso
                obtain ⟨-, z, inner⟩ := id here
                have same : instanceDot ++ (b.text ++ printed bs) = (t :: y) ++ (instanceDot ++ z) := by
                  rw [inner, ← spans.after, after]
                have late : instanceDot.length ≤ (t :: y).length := keyword_apart same
                have split := after.symm.trans spans.after
                obtain ⟨y', same, rest'⟩ := exists_append_of_le split late
                have dot := Cursor.spans_advance after
                have further := Cursor.spans_advance (x := y') (dot.remaining (by rw [after, rest']))
                rw [(dot.trans further).unique (same ▸ spans)] at further
                refine not_atInstance (w := []) calm (.refl _) (dot.remaining after) separate further ?_ here
                rw [same, chars, List.length_append, List.length_append] at inside
                exact Nat.lt_of_add_lt_add_left inside
      · obtain ⟨z, rfl, rest'⟩ := exists_append_of_le (after.symm.trans spans.after) (by omega)
        have first := Cursor.spans_advance after
        have second := Cursor.spans_advance (x := z) (first.remaining (by rw [after, rest']))
        rw [(first.trans second).unique spans] at second
        obtain ⟨before, b', rest'', rfl, live, rfl⟩ := ih rest (first.remaining after) second
        exact ⟨b :: before, b', rest'', rfl, live, rfl⟩

theorem Settled.drop {before bs : List Block} (settled : Settled (before ++ bs)) : Settled bs := by
  induction before with
  | nil => exact settled
  | cons b before ih => exact ih settled.2.2.2

/-- What stands before a block is no part of a member path. -/
theorem Settled.fresh {before bs : List Block} (settled : Settled (before ++ bs)) (more : bs ≠ []) :
    NotNext isPath (printed before).reverse := by
  obtain rfl | ⟨before, b, rfl⟩ := List.eq_nil_or_concat before
  · simp [NotNext, printed]
  · rw [List.concat_eq_append, List.append_assoc] at settled
    obtain ⟨a, last, fresh⟩ := settled.drop.2.1 more
    have visible : b.text ≠ [] := by
      intro empty
      rw [empty] at last
      cases last
    intro a' head
    have chars : printed (before.concat b) = (printed before ++ if b.live then instanceDot else []) ++ b.text := by
      simp [printed, Block.chars]
    rw [List.head?_reverse, chars, getLast?_append_visible visible] at head
    obtain rfl := Option.some.inj (last.symm.trans head)
    exact fresh

/-- The pattern occurs in the text of blocks where the rule rewrites one. -/
theorem Rule.Reads.occurs {r : Rule} (reads : r.Reads p f) {bs : List Block} (settled : Settled bs)
    {text : String} (blocks : text.toList = printed bs) :
    p.occurs text = true ↔ ∃ before b rest, bs = before ++ b :: rest ∧ b.live = true ∧
      (r.recast? b.text (printed rest)).isSome = true := by
  have atBlock {before rest : List Block} {b : Block} (split : bs = before ++ b :: rest) (live : b.live = true) :
      ∃ d, (Cursor.start text.toList).Spans (printed before) d ∧
        ((r.recast? b.text (printed rest)).isSome = true ↔ (p.matchAt? d).isSome = true) := by
    subst split
    have after : (Cursor.start text.toList).after = printed before ++ (instanceDot ++ (b.text ++ printed rest)) := by
      change text.toList = _
      rw [blocks]
      simp [printed, Block.chars, live]
    have spans := Cursor.spans_advance after
    refine ⟨_, spans, ?_⟩
    obtain ⟨-, ends, names, -⟩ := settled.drop
    have bound := atBoundary_of_keyword (c := (Cursor.start text.toList).advance (printed before).length)
      (by rw [spans.before]; simpa [Cursor.start] using settled.fresh (List.cons_ne_nil b rest))
      (spans.remaining after)
    obtain ⟨unchanged, unmatched⟩ | ⟨m, -, -, found, -, -, b', applied, -⟩ :=
      reads.atBlock (spans.remaining after) bound (fun more => ends fun none => more (by rw [none]; rfl))
        (Settled.starts names)
    · simp [unchanged, unmatched]
    · simp [applied, found]
  constructor
  · intro occurs
    obtain ⟨m, search⟩ := Option.isSome_iff_exists.mp occurs
    obtain ⟨y, e, spans, found, -⟩ := Pattern.searchAt?_eq_some search
    obtain ⟨taken, -⟩ := Pattern.matchAt?_eq_some found
    obtain ⟨bound, ⟨tail, -, whole, -⟩, -⟩ := (reads.takes _ _ _).mp taken
    obtain ⟨before, b, rest, split, live, rfl⟩ := exists_live_of_atInstance settled blocks spans
      ⟨bound, r.member ++ tail ++ m.rest.after, by rw [whole.after]; simp⟩
    obtain ⟨d, reached, same⟩ := atBlock split live
    obtain rfl := reached.unique spans
    exact ⟨before, b, rest, split, live, same.mpr (by rw [found]; rfl)⟩
  · rintro ⟨before, b, rest, split, live, applied⟩
    obtain ⟨d, reached, same⟩ := atBlock split live
    have found := same.mp applied
    unfold Pattern.occurs Pattern.find?
    cases search : p.searchAt? (.start text.toList) with
    | some m => rfl
    | none =>
        rw [Pattern.matchAt?_of_searchAt? search reached] at found
        cases found

/-! ### Two rules -/

/-- On such texts, the second rule leaves alone what the first one rewrites, and what it has written. -/
structure Rule.Spares (good : List Char → Prop) (r r' : Rule) : Prop where
  front : ∀ {text rest rest' b}, good text → r.recast? text rest = some b → r'.recast? text rest' = none
  result : ∀ {text rest rest' b}, good text → r.recast? text rest = some b → b.live = true →
    r'.recast? b.text rest' = none

/-- What stands behind a block looks the same to the rule before and after the pass of the other rule. -/
def Rule.Overlooks (r r' : Rule) : Prop :=
  ∀ {b bs}, Settled (b :: bs) → b.live = true →
    r.recast? b.text (printed (r'.pass bs)) = r.recast? b.text (printed bs)

/-- Rules that spare and overlook one another can be used in any order. -/
theorem Rule.pass_comm {good : List Char → Prop} {r r' : Rule} (spares : r.Spares good r')
    (spares' : r'.Spares good r) (overlooks : r.Overlooks r') (overlooks' : r'.Overlooks r) {bs : List Block}
    (settled : Settled bs) (all : ∀ b ∈ bs, b.live = true → good b.text) :
    r.pass (r'.pass bs) = r'.pass (r.pass bs) := by
  induction bs with
  | nil => rfl
  | cons b bs ih =>
      simp only [pass, ih settled.2.2.2 fun b' mem => all b' (List.mem_cons_of_mem b mem), List.cons.injEq,
        and_true]
      cases kind : b.live with
      | false => simp [kind]
      | true =>
          have fine := all b List.mem_cons_self kind
          have same := overlooks settled kind
          have same' := overlooks' settled kind
          simp only [if_true]
          cases first : r.recast? b.text (printed bs) with
          | some x =>
              simp only [spares.front fine first, Option.getD_none, Option.getD_some, kind, if_true, same, first]
              cases live : x.live with
              | false => simp
              | true => simp [spares.result fine first live]
          | none =>
              simp only [Option.getD_none, kind, if_true, same']
              cases second : r'.recast? b.text (printed bs) with
              | none => simp [kind, same, first]
              | some x =>
                  simp only [Option.getD_some]
                  cases live : x.live with
                  | false => simp
                  | true => simp [spares'.result fine second live]

end ReactMigration.Recast
