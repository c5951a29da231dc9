import Mathlib.Data.List.Infix
import ReactMigration.Proofs.MemberRules

/-!
The passes for subjects.

A subject is a member whose value is read and written through a state variable.  Its patterns are rules; the
rules of two subjects change places on a tidy text, and whether a subject is used as a stream does not
depend on the others.
-/

namespace ReactMigration.Recast

open ReactMigration.Text
open ReactMigration.Text.Pattern (Captures isName isPath atBoundary)

variable {c d : Cursor} {name : String}

/-! ### Rules that look for one of some methods -/

/-- A rule with one of some methods, and a fixed text, behind the member. -/
def Rule.choice (name : List Char) (methods : List String) (closing : List Char) (live : Bool)
    (result : List Char) : Rule :=
  ⟨name, methods.map fun method => '.' :: (method.toList ++ closing), fun _ _ => true, live, fun _ => result⟩

theorem choice_takes {methods : List String} {closing : String} {g h : Captures} :
    (member name ++ .text "." ++ .oneOf methods ++ .text closing).Takes c g d h ↔
      (atBoundary c = true ∧ ∃ method ∈ methods,
        c.Spans (instanceDot ++ (name.toList ++ '.' :: (method.toList ++ closing.toList))) d) ∧ h = g := by
  rw [Pattern.seq_takes]
  simp only [Pattern.seq_takes (p := member name ++ .text "."), member_text_takes, Pattern.oneOf_takes,
    Pattern.text_takes]
  constructor
  · rintro ⟨e, _, ⟨f, _, ⟨⟨bound, first⟩, rfl⟩, ⟨method, mem, second⟩, rfl⟩, last, rfl⟩
    exact ⟨⟨bound, method, mem, by simpa using first.trans (second.trans last)⟩, rfl⟩
  · rintro ⟨⟨bound, method, mem, spans⟩, rfl⟩
    have after : c.after = instanceDot ++ (name.toList ++ ".".toList) ++ (method.toList ++ (closing.toList ++ d.after)) := by
      rw [spans.after]
      simp
    have first := Cursor.spans_advance after
    have second := Cursor.spans_advance (first.remaining after)
    have last := Cursor.spans_advance (second.remaining (first.remaining after))
    rw [(first.trans (second.trans last)).unique (by simpa using spans)] at last
    exact ⟨_, h, ⟨_, h, ⟨⟨bound, first⟩, rfl⟩, ⟨method, mem, second⟩, rfl⟩, last, rfl⟩

theorem choice_reads {methods : List String} {closing : String} {live : Bool} {result : List Char}
    {f : Match → List Char} (letters : ∀ a ∈ name.toList, isName a = true)
    (words : ∀ method ∈ methods, ∀ a ∈ method.toList, isName a = true)
    (closes : ∀ a ∈ closing.toList, isName a = false)
    (apart : ∀ tail ∈ methods.map (fun method => '.' :: (method.toList ++ closing.toList)),
      ∀ tail' ∈ methods.map (fun method => '.' :: (method.toList ++ closing.toList)), tail <+: tail' → tail = tail')
    (writes : ∀ m, f m = (if live then instanceDot else []) ++ result) :
    (Rule.choice name.toList methods closing.toList live result).Reads
      (member name ++ .text "." ++ .oneOf methods ++ .text closing) f where
  steady := by simp
  takes c d h := by
    rw [choice_takes]
    simp [Rule.choice, and_assoc]
  joined tail mem y a b z split letter := by
    obtain ⟨method, listed, rfl⟩ := List.mem_map.mp mem
    refine joined_of_path (u := name.toList ++ '.' :: method.toList) ?_ closes
      (by rw [← split]; simp [Rule.choice]) letter
    intro a inside
    obtain inside | inside := List.mem_append.mp inside
    · rw [isPath, letters a inside, Bool.true_or]
    · obtain rfl | inside := List.mem_cons.mp inside
      · decide
      · rw [isPath, words method listed a inside, Bool.true_or]
  apart := apart
  writes _ m _ := writes m

/-! ### The rules of a subject -/

/-- Setting the value. -/
def nextRule (setter name : List Char) : Rule :=
  .single name ".next(".toList (fun _ => true) false (fun _ => setter ++ ['('])

/-- Asking for the value by a method. -/
def getRule (name : List Char) : Rule :=
  .choice name ["getValue", "asObservable"] "()".toList true name

/-- Reading the value. -/
def valueRule (name : List Char) : Rule :=
  .single name ".value".toList (meetsWord (instanceDot ++ (name ++ ".value".toList))) true (fun _ => name)

/-- The rules for a subject with the setter of its state variable, in their order. -/
def subjectRules (setter : Option String) (name : List Char) : List Rule :=
  (match setter with
    | some setter => if setter == "" then [] else [nextRule setter.toList name]
    | none => []) ++ [getRule name, valueRule name]

/-- Using the subject as a stream. -/
def streamRule (name : List Char) : Rule :=
  .choice name ["pipe", "subscribe"] "(".toList false []

theorem subjectRule_cases {setter : Option String} {name : List Char} {r : Rule}
    (mem : r ∈ subjectRules setter name) :
    (∃ s, setter = some s ∧ s ≠ "" ∧ r = nextRule s.toList name) ∨ r = getRule name ∨ r = valueRule name := by
  unfold subjectRules at mem
  obtain mem | mem := List.mem_append.mp mem
  · split at mem
    · rename_i s _
      split at mem
      · cases mem
      · rename_i visible
        exact .inl ⟨s, rfl, by simpa using visible, List.mem_singleton.mp mem⟩
    · cases mem
  · simpa using Or.inr mem

theorem subjectRule_member {setter : Option String} {name : List Char} {r : Rule}
    (mem : r ∈ subjectRules setter name) : r.member = name := by
  obtain ⟨s, -, -, rfl⟩ | rfl | rfl := subjectRule_cases mem <;> rfl

theorem subjectRule_dotted {setter : Option String} {name : List Char} {r : Rule}
    (mem : r ∈ subjectRules setter name) : ∀ tail ∈ r.tails, tail.head? = some '.' := by
  intro tail tails
  obtain ⟨s, -, -, rfl⟩ | rfl | rfl := subjectRule_cases mem
  · obtain rfl := List.mem_singleton.mp tails
    rfl
  · obtain ⟨method, -, rfl⟩ := List.mem_map.mp tails
    rfl
  · obtain rfl := List.mem_singleton.mp tails
    rfl

theorem nextRule_reads {setter : String} (letters : ∀ a ∈ name.toList, isName a = true) :
    (nextRule setter.toList name.toList).Reads (member name ++ .text ".next(")
      (fun _ => (setter ++ "(").toList) := by
  refine Rule.single_reads ".next".toList ['('] _ _ _ (by simp) letters (List.all_eq_true.mp (by decide))
    (List.all_iff_forall_prop.mp (by decide)) (fun c d h => ?_) (fun _ _ _ => by simp)
  rw [member_text_takes]
  simp

theorem getRule_reads (letters : ∀ a ∈ name.toList, isName a = true) :
    (getRule name.toList).Reads (member name ++ .text "." ++ .oneOf ["getValue", "asObservable"] ++ .text "()")
      (fun _ => ("this." ++ name).toList) :=
  choice_reads letters (by simp [isName, isWord]; decide) (List.all_iff_forall_prop.mp (by decide)) (by decide) (fun _ => by simp [instanceDot])

theorem valueRule_reads (letters : ∀ a ∈ name.toList, isName a = true) :
    (valueRule name.toList).Reads (member name ++ .text ".value" ++ .boundary)
      (fun _ => ("this." ++ name).toList) :=
  bounded_reads _ _ _ (by simp) letters (List.all_eq_true.mp (by decide))
    (fun c g d h => @member_text_takes c d name ".value" g h) (by simp [instanceDot])

theorem streamRule_reads (letters : ∀ a ∈ name.toList, isName a = true) :
    (streamRule name.toList).Reads (member name ++ .text "." ++ .oneOf ["pipe", "subscribe"] ++ .text "(")
      (fun _ => []) :=
  choice_reads letters (by simp; decide) (List.all_iff_forall_prop.mp (by decide)) (by decide) (fun _ => rfl)

/-! ### Tidy text -/

/-- No name follows a pair of brackets directly, and no dollar sign follows a read of a value. -/
def Tidy (x : List Char) : Prop :=
  ∀ t ∈ x.tails, ("()".toList <+: t → NotNext isName (t.drop 2)) ∧ ¬ ".value$".toList <+: t

instance (x : List Char) : Decidable (Tidy x) :=
  inferInstanceAs (Decidable (∀ t ∈ x.tails, ("()".toList <+: t → NotNext isName (t.drop 2)) ∧
    ¬ ".value$".toList <+: t))

theorem Tidy.behind {x y : List Char} (tidy : Tidy (x ++ y)) : Tidy y := by
  intro t suffix
  exact tidy t ((List.mem_tails _ _).mpr (((List.mem_tails _ _).mp suffix).trans (List.suffix_append x y)))

theorem Tidy.front {x y : List Char} (tidy : Tidy (x ++ y)) : Tidy x := by
  intro t suffix
  obtain ⟨u, rfl⟩ := (List.mem_tails _ _).mp suffix
  obtain ⟨brackets, value⟩ := tidy (t ++ y) ((List.mem_tails _ _).mpr ⟨u, by simp⟩)
  refine ⟨?_, fun starts => value (starts.trans (List.prefix_append t y))⟩
  rintro ⟨z, rfl⟩ a head
  exact brackets ⟨z ++ y, by simp⟩ a (by
    cases z with
    | nil => cases head
    | cons b z => exact head)

/-- A name in place of what stood before is tidy. -/
theorem Tidy.renamed {name x y : List Char} (letters : ∀ a ∈ name, isName a = true) (tidy : Tidy (x ++ y)) :
    Tidy (name ++ y) := by
  induction name with
  | nil => exact tidy.behind
  | cons a name ih =>
      have rest := ih fun b mem => letters b (List.mem_cons_of_mem a mem)
      intro t suffix
      rw [List.cons_append, List.tails_cons, List.mem_cons] at suffix
      obtain rfl | suffix := suffix
      · have letter := letters a List.mem_cons_self
        constructor
        · rintro ⟨z, same⟩
          obtain ⟨rfl, -⟩ := List.cons.inj same
          exact absurd letter (by decide)
        · rintro ⟨z, same⟩
          obtain ⟨rfl, -⟩ := List.cons.inj same
          exact absurd letter (by decide)
      · exact rest t suffix

/-- The text of a block, with the start of a name behind it where another block follows. -/
def reach (text : List Char) (bs : List Block) : List Char :=
  text ++ if bs.isEmpty then [] else ['t']

/-- The live blocks are tidy. -/
def Tended : List Block → Prop
  | [] => True
  | b :: bs => (b.live = true → Tidy (reach b.text bs)) ∧ Tended bs

theorem Tended.tidy {bs : List Block} (tended : Tended bs) : ∀ b ∈ bs, b.live = true → Tidy b.text := by
  induction bs with
  | nil => simp
  | cons b bs ih =>
      intro b' mem live
      obtain rfl | mem := List.mem_cons.mp mem
      · exact (tended.1 live).front
      · exact ih tended.2 b' mem live

/-- The blocks of a tidy text are tended. -/
theorem tended_of_tidy {bs : List Block} (settled : Settled bs) (tidy : Tidy (printed bs)) : Tended bs := by
  induction bs with
  | nil => trivial
  | cons b bs ih =>
      rw [printed_cons] at tidy
      refine ⟨fun live => ?_, ih settled.2.2.2 tidy.behind⟩
      rw [Block.chars, List.append_assoc] at tidy
      have tidy := tidy.behind
      cases bs with
      | nil => simpa [reach, printed] using tidy
      | cons b' bs =>
          obtain ⟨e, head⟩ : ∃ e, e ∈ (printed (b' :: bs)).head? := by
            obtain live | ⟨e, first, -⟩ := settled.2.2.1 b' rfl
            · exact ⟨'t', by simp [printed_cons, Block.chars, live, instanceDot]⟩
            · cases text : b'.text with
              | nil => simp [text] at first
              | cons x text' =>
                  rw [printed_cons, Block.chars, text]
                  cases b'.live with
                  | false => exact ⟨x, rfl⟩
                  | true => exact ⟨'t', rfl⟩
          have letter := Settled.starts settled.2.2.1 e head
          intro t suffix
          obtain ⟨u, split⟩ := (List.mem_tails _ _).mp suffix
          change u ++ t = b.text ++ ['t'] at split
          obtain rfl | ⟨t, a, rfl⟩ := List.eq_nil_or_concat t
          · exact ⟨by simp, by simp⟩
          · rw [List.concat_eq_append, ← List.append_assoc] at split
            obtain ⟨text, last⟩ := List.append_inj' split rfl
            obtain rfl : a = 't' := by simpa using last
            obtain ⟨brackets, value⟩ := tidy (t ++ printed (b' :: bs)) ((List.mem_tails _ _).mpr ⟨u, by simp [← text]⟩)
            rw [List.concat_eq_append]
            constructor
            · rintro ⟨z, same⟩
              obtain rfl | ⟨z, a, rfl⟩ := List.eq_nil_or_concat z
              · have := congrArg List.getLast? same
                simp at this
              · rw [List.concat_eq_append, ← List.append_assoc] at same
                obtain ⟨rfl, -⟩ := List.append_inj' same rfl
                cases z with
                | nil =>
                    have := brackets ⟨printed (b' :: bs), by simp⟩ e head
                    rw [letter] at this
                    cases this
                | cons x z => exact fun y head => brackets ⟨x :: z ++ printed (b' :: bs), by simp⟩ y head
            · rintro ⟨z, same⟩
              obtain rfl | ⟨z, a, rfl⟩ := List.eq_nil_or_concat z
              · have := congrArg List.getLast? same
                simp at this
              · rw [List.concat_eq_append, ← List.append_assoc] at same
                obtain ⟨rfl, -⟩ := List.append_inj' same rfl
                exact value ⟨z ++ printed (b' :: bs), by simp⟩

/-! ### A pass keeps blocks settled and tended -/

/-- The name of a subject: one that does not end with the keyword. -/
structure IsSubjectName (name : List Char) : Prop where
  letters : ∀ a ∈ name, isName a = true
  keyword : ¬ "this".toList <:+ name

/-- Behind a read that leaves the subject no name goes on. -/
theorem getRule_ends {name tail behind : List Char} (mem : tail ∈ (getRule name).tails)
    (tidy : Tidy (name ++ (tail ++ behind))) : NotNext isName behind := by
  obtain ⟨method, -, rfl⟩ := List.mem_map.mp mem
  refine (tidy ("()".toList ++ behind) ((List.mem_tails _ _).mpr ⟨name ++ '.' :: method.toList, by simp⟩)).1
    (List.prefix_append _ _)

theorem valueRule_ends {name tail behind rest : List Char} (mem : tail ∈ (valueRule name).tails)
    (tidy : Tidy (name ++ (tail ++ behind))) (test : (valueRule name).test tail (behind ++ rest) = true) :
    NotNext isName behind := by
  obtain rfl := List.mem_singleton.mp mem
  cases behind with
  | nil => intro a head; cases head
  | cons a behind =>
      intro a' head
      cases head
      have notWord : isWord a = false := by
        have last : (instanceDot ++ (name ++ ".value".toList)).getLast? = some 'e' := by
          rw [← List.append_assoc, getLast?_append_visible (by decide)]
          rfl
        change meetsWord _ (a :: (behind ++ rest)) = true at test
        rw [meetsWord, last, List.head?_cons, Option.map_some, Option.map_some, Option.getD_some, Option.getD_some,
          show isWord 'e' = true by decide] at test
        simpa using test
      have dollar : a ≠ '$' := by
        rintro rfl
        refine (tidy (".value$".toList ++ behind) ((List.mem_tails _ _).mpr ⟨name, by simp⟩)).2 (List.prefix_append _ _)
      simp [isName, notWord, dollar]

theorem Tended.drop {before bs : List Block} (tended : Tended (before ++ bs)) : Tended bs := by
  induction before with
  | nil => exact tended
  | cons b before ih => exact ih tended.2

theorem Rule.pass_isEmpty (r : Rule) (bs : List Block) : (r.pass bs).isEmpty = bs.isEmpty := by
  cases bs <;> rfl

theorem Rule.pass_tended {r : Rule} {name : List Char} (letters : ∀ a ∈ name, isName a = true)
    (result : r.live = true → ∀ rest, r.result rest = name) {bs : List Block} (tended : Tended bs) :
    Tended (r.pass bs) := by
  induction bs with
  | nil => trivial
  | cons b bs ih =>
      refine ⟨?_, ih tended.2⟩
      have same (text : List Char) : reach text (r.pass bs) = reach text bs := by rw [reach, pass_isEmpty, reach]
      rw [same]
      cases kind : b.live with
      | false => simp [kind]
      | true =>
          have tidy := tended.1 kind
          cases applied : r.recast? b.text (printed bs) with
          | none => exact fun _ => tidy
          | some b' =>
              obtain ⟨tail, -, behind, text, -, rfl⟩ := recast?_eq_some applied
              intro live
              simp only [if_true, Option.getD_some] at live ⊢
              rw [result live, reach, List.append_assoc]
              rw [text, reach, ← List.append_assoc, List.append_assoc] at tidy
              exact tidy.renamed letters

/-- A read that leaves the subject keeps the text calm. -/
theorem calm_subject {name tail behind : List Char} (named : IsSubjectName name) (dotted : tail ≠ [])
    (calm : Calm (name ++ (tail ++ behind))) (ends : NotNext isName behind) : Calm (name ++ behind) := by
  rw [← List.append_assoc] at calm
  exact calm_name named.letters ends (fun _ => named.keyword) ((calm.from).behind (by simp [dotted])).mono

theorem subjectRules_settled {setter : Option String} {name : List Char} {r : Rule} (named : IsSubjectName name)
    (letters : ∀ s, setter = some s → ∀ a ∈ s.toList, isName a = true) (mem : r ∈ subjectRules setter name)
    {bs : List Block} (settled : Settled bs) (tended : Tended bs) : Settled (r.pass bs) := by
  refine Rule.pass_settled settled fun b bs' b' suffix live applied => ?_
  obtain ⟨before, rfl⟩ := suffix
  obtain ⟨calm, ends, -, -⟩ := settled.drop
  have tidy := tended.drop.1 live
  obtain ⟨tail, tails, behind, text, test, rfl⟩ := Rule.recast?_eq_some applied
  rw [text, subjectRule_member mem] at calm ends tidy
  obtain ⟨s, known, visible, rfl⟩ | rfl | rfl := subjectRule_cases mem
  · obtain rfl := List.mem_singleton.mp tails
    have filled : s.toList ≠ [] := by simpa using visible
    change Calm (s.toList ++ ['('] ++ behind) ∧ (bs' ≠ [] → EndsFresh (s.toList ++ ['('] ++ behind)) ∧
      (false = true ∨ ∃ a ∈ (s.toList ++ ['('] ++ behind).head?, isName a = true)
    rw [List.append_assoc]
    refine ⟨?_, fun more => ?_, .inr ?_⟩
    · rw [← List.append_assoc] at calm
      have rest := (calm.from).behind (by simp)
      rw [getLast?_append_visible (by decide)] at rest
      refine calm_name (letters s known) (fun a head => ?_) (fun dot => ?_) (.cons (fun _ => rfl) rest)
      · cases head
        decide
      · exact absurd dot (by simp)
    · refine EndsFresh.append ?_ _
      cases behind with
      | nil => exact ⟨'(', rfl, by decide⟩
      | cons a behind =>
          have ends := ends more
          rw [← List.append_assoc] at ends
          exact (ends.behind (List.cons_ne_nil a behind)).append _
    · obtain ⟨a, s', same⟩ := List.exists_cons_of_ne_nil filled
      exact ⟨a, by rw [same]; rfl, letters s known a (by rw [same]; exact List.mem_cons_self)⟩
  · have next : NotNext isName (behind ++ if bs'.isEmpty then [] else ['t']) :=
      @getRule_ends name _ _ tails (by simpa [reach] using tidy)
    have dotted : tail ≠ [] := by
      obtain ⟨method, -, rfl⟩ := List.mem_map.mp tails
      exact List.cons_ne_nil _ _
    refine ⟨calm_subject named dotted calm (@getRule_ends name _ _ tails tidy.front), fun more => ?_, .inl rfl⟩
    refine EndsFresh.append ?_ _
    have ends := ends more
    rw [← List.append_assoc] at ends
    refine ends.behind ?_
    rintro rfl
    have := next 't' (by simp [more])
    revert this
    decide
  · have path : ∀ a ∈ name ++ tail, isPath a = true := by
      obtain rfl := List.mem_singleton.mp tails
      intro a inside
      obtain inside | inside := List.mem_append.mp inside
      · rw [isPath, named.letters a inside, Bool.true_or]
      · exact List.all_eq_true.mp (by decide : ".value".toList.all isPath = true) a inside
    have dotted : tail ≠ [] := by
      obtain rfl := List.mem_singleton.mp tails
      decide
    refine ⟨calm_subject named dotted calm (valueRule_ends tails tidy.front test), fun more => ?_, .inl rfl⟩
    have ends := ends more
    rw [← List.append_assoc] at ends
    exact (ends.behind_path path).append _

theorem subjectRules_tended {setter : Option String} {name : List Char} {r : Rule} (named : IsSubjectName name)
    (mem : r ∈ subjectRules setter name) {bs : List Block} (tended : Tended bs) : Tended (r.pass bs) := by
  refine Rule.pass_tended named.letters (fun live rest => ?_) tended
  obtain ⟨s, -, -, rfl⟩ | rfl | rfl := subjectRule_cases mem
  · cases live
  · rfl
  · rfl

/-! ### Two subjects -/

/-- A name is determined where it ends. -/
theorem name_unique {u v x y : List Char} (letters : ∀ a ∈ u, isName a = true) (letters' : ∀ a ∈ v, isName a = true)
    (ends : NotNext isName x) (ends' : NotNext isName y) (same : u ++ x = v ++ y) : u = v := by
  rw [← takeWhile_append_of_notNext (List.all_eq_true.mpr letters) ends, same,
    takeWhile_append_of_notNext (List.all_eq_true.mpr letters') ends']

theorem notNext_dotted {tail x : List Char} (dotted : tail.head? = some '.') : NotNext isName (tail ++ x) := by
  intro a head
  rw [List.head?_append, dotted] at head
  cases head
  decide

/-- Whether the subject stands here does not matter for a rule that looks for another one. -/
theorem subjectRules_spare {setter : Option String} {name name' : List Char} {r r' : Rule}
    (named : IsSubjectName name) (named' : IsSubjectName name') (different : name ≠ name')
    (mem : r ∈ subjectRules setter name) (member' : r'.member = name')
    (dotted' : ∀ tail ∈ r'.tails, tail.head? = some '.') : r.Spares Tidy r' := by
  have elsewhere {x rest : List Char} (ends : NotNext isName x) : r'.recast? (name ++ x) rest = none := by
    cases applied : r'.recast? (name ++ x) rest with
    | none => rfl
    | some b =>
        obtain ⟨tail, tails, behind, text, -, -⟩ := Rule.recast?_eq_some applied
        rw [member'] at text
        exact absurd (name_unique named.letters named'.letters ends (notNext_dotted (dotted' tail tails)) text)
          different
  have member := subjectRule_member mem
  constructor
  · intro text rest rest' b tidy applied
    obtain ⟨tail, tails, behind, rfl, -, -⟩ := Rule.recast?_eq_some applied
    rw [member]
    exact elsewhere (notNext_dotted (subjectRule_dotted mem tail tails))
  · intro text rest rest' b tidy applied live
    obtain ⟨tail, tails, behind, rfl, test, rfl⟩ := Rule.recast?_eq_some applied
    rw [member] at tidy
    obtain ⟨s, -, -, rfl⟩ | rfl | rfl := subjectRule_cases mem
    · cases live
    · exact elsewhere (@getRule_ends name _ _ tails tidy)
    · exact elsewhere (valueRule_ends tails tidy test)

theorem unbroken_instance {x : List Char} (closed : ']' ∉ x) : Unbroken (instanceDot ++ x) := by
  refine ⟨⟨'t', rfl, by decide⟩, ?_⟩
  simpa [instanceDot] using closed

theorem closed_of_name {name : List Char} (letters : ∀ a ∈ name, isName a = true) : ']' ∉ name :=
  fun mem => absurd (letters ']' mem) (by decide)

theorem subjectRules_unbroken {setter : Option String} {name : List Char} {r : Rule} (named : IsSubjectName name)
    (letters : ∀ s, setter = some s → ∀ a ∈ s.toList, isName a = true) (mem : r ∈ subjectRules setter name) :
    (∀ tail ∈ r.tails, Unbroken (instanceDot ++ (r.member ++ tail))) ∧
      ∀ rest, Unbroken ((if r.live then instanceDot else []) ++ r.result rest) := by
  have closed := closed_of_name named.letters
  have front {tail : List Char} (ends : ']' ∉ tail) : Unbroken (instanceDot ++ (name ++ tail)) :=
    unbroken_instance (by simpa [closed] using ends)
  rw [subjectRule_member mem]
  obtain ⟨s, known, visible, rfl⟩ | rfl | rfl := subjectRule_cases mem
  · constructor
    · intro tail tails
      obtain rfl := List.mem_singleton.mp tails
      exact front (by decide)
    · intro rest
      obtain ⟨a, s', same⟩ := List.exists_cons_of_ne_nil (show s.toList ≠ [] by simpa using visible)
      have word := letters s known
      refine ⟨⟨a, by simp [nextRule, Rule.single, same], word a (by rw [same]; exact List.mem_cons_self)⟩, ?_⟩
      simpa [nextRule, Rule.single] using closed_of_name word
  · constructor
    · intro tail tails
      obtain ⟨method, listed, rfl⟩ := List.mem_map.mp tails
      exact front ((by decide : ∀ m ∈ ["getValue", "asObservable"], ']' ∉ '.' :: (m.toList ++ "()".toList)) method listed)
    · exact fun rest => unbroken_instance closed
  · constructor
    · intro tail tails
      obtain rfl := List.mem_singleton.mp tails
      exact front (by decide)
    · exact fun rest => unbroken_instance closed

theorem subjectRules_overlook {setter setter' : Option String} {name name' : List Char} {r r' : Rule}
    (named : IsSubjectName name) (named' : IsSubjectName name')
    (letters' : ∀ s, setter' = some s → ∀ a ∈ s.toList, isName a = true)
    (mem : r ∈ subjectRules setter name) (mem' : r' ∈ subjectRules setter' name') : r.Overlooks r' := by
  obtain ⟨fronts, results⟩ := subjectRules_unbroken named' letters' mem'
  obtain ⟨s, known, visible, rfl⟩ | rfl | rfl := subjectRule_cases mem
  · exact Rule.overlooks_of fun _ _ _ _ _ _ => ⟨rfl, rfl⟩
  · exact Rule.overlooks_of fun _ _ _ _ _ _ => ⟨rfl, rfl⟩
  · refine Rule.overlooks_of_path ?_ (fun _ _ _ _ _ _ fresh _ _ => meetsWord_swap fresh)
      (fun _ _ _ same => same) fronts results
    intro tail tails a inside
    obtain rfl := List.mem_singleton.mp tails
    obtain inside | inside := List.mem_append.mp inside
    · rw [isPath, named.letters a inside, Bool.true_or]
    · exact List.all_eq_true.mp (by decide : ".value".toList.all isPath = true) a inside

/-! ### Streams -/

/-- Whether the rule rewrites a block. -/
def Rule.finds (r : Rule) : List Block → Bool
  | [] => false
  | b :: bs => (b.live && (r.recast? b.text (printed bs)).isSome) || r.finds bs

theorem Rule.finds_iff {r : Rule} {bs : List Block} : r.finds bs = true ↔ ∃ before b rest, bs = before ++ b :: rest ∧
    b.live = true ∧ (r.recast? b.text (printed rest)).isSome = true := by
  induction bs with
  | nil => simp [finds]
  | cons b bs ih =>
      rw [finds, Bool.or_eq_true, Bool.and_eq_true, ih]
      constructor
      · rintro (⟨live, found⟩ | ⟨before, b', rest, rfl, live, found⟩)
        · exact ⟨[], b, bs, rfl, live, found⟩
        · exact ⟨b :: before, b', rest, rfl, live, found⟩
      · rintro ⟨before, b', rest, split, live, found⟩
        cases before with
        | nil =>
            obtain ⟨rfl, rfl⟩ := List.cons.inj split
            exact .inl ⟨live, found⟩
        | cons b₁ before =>
            obtain ⟨rfl, rfl⟩ := List.cons.inj split
            exact .inr ⟨before, b', rest, rfl, live, found⟩

/-- What a rule finds is not changed by a pass that spares it. -/
theorem Rule.finds_pass {good : List Char → Prop} {r r' : Rule} (spares : r.Spares good r')
    (steady : ∀ text rest rest', r'.recast? text rest = none → r'.recast? text rest' = none) {bs : List Block}
    (all : ∀ b ∈ bs, b.live = true → good b.text) : r'.finds (r.pass bs) = r'.finds bs := by
  induction bs with
  | nil => rfl
  | cons b bs ih =>
      have same (text : List Char) : (r'.recast? text (printed (r.pass bs))).isSome =
          (r'.recast? text (printed bs)).isSome := by
        refine Bool.eq_iff_iff.mpr ?_
        rw [Option.isSome_iff_ne_none, Option.isSome_iff_ne_none]
        exact not_congr ⟨steady text _ _, steady text _ _⟩
      rw [pass, finds, finds, ih fun b' mem => all b' (List.mem_cons_of_mem b mem)]
      congr 1
      cases kind : b.live with
      | false => simp [kind]
      | true =>
          have fine := all b List.mem_cons_self kind
          rw [if_pos rfl]
          cases applied : r.recast? b.text (printed bs) with
          | none => rw [Option.getD_none, kind, same]
          | some b' =>
              have passed : r'.recast? b.text (printed bs) = none := spares.front fine applied
              rw [passed, Option.getD_some]
              cases live : b'.live with
              | false => rfl
              | true =>
                  have passed' : r'.recast? b'.text (printed (r.pass bs)) = none := spares.result fine applied live
                  rw [passed']

theorem streamRule_recast {name text rest rest' : List Char} (none : (streamRule name).recast? text rest = none) :
    (streamRule name).recast? text rest' = .none := by
  cases applied : (streamRule name).recast? text rest' with
  | none => rfl
  | some b =>
      obtain ⟨tail, tails, behind, rfl, -, -⟩ := Rule.recast?_eq_some applied
      have found := @Rule.recast?_isSome (streamRule name) _ behind rest tails rfl
      rw [none] at found
      cases found

/-! ### The text of a subject -/

/-- What is said about a subject that is used as a stream. -/
def streamWarning (name : String) : String :=
  s!"Stream operators on '{name}' are not converted"

/-- Whether the subject is used as a stream, once its reads and writes are rewritten. -/
def streams (state : Table String) (name : String) (bs : List Block) : Bool :=
  (streamRule name.toList).finds (Rule.passes (subjectRules (state.get? name) name.toList) bs)

/-- The names of subjects, and the setters of their state variables. -/
structure SubjectNames (state : Table String) (subjects : List String) : Prop where
  nodup : subjects.Nodup
  named : ∀ name ∈ subjects, IsSubjectName name.toList
  setters : ∀ name ∈ subjects, ∀ setter, state.get? name = some setter → ∀ a ∈ setter.toList, isName a = true

/-- What the passes for subjects keep. -/
def Orderly (bs : List Block) : Prop :=
  Settled bs ∧ Tended bs

theorem subjectRules_keep {setter : Option String} {name : List Char} (named : IsSubjectName name)
    (letters : ∀ s, setter = some s → ∀ a ∈ s.toList, isName a = true) :
    ∀ r ∈ subjectRules setter name, ∀ bs, Orderly bs → Orderly (r.pass bs) :=
  fun _ mem _ orderly => ⟨subjectRules_settled named letters mem orderly.1 orderly.2,
    subjectRules_tended named mem orderly.2⟩

/-- The text with the writes of a subject rewritten. -/
def setText (setter : Option String) (text name : String) : String :=
  match setter with
  | some setter =>
      if setter == "" then text else (member name ++ .text ".next(" : Pattern).substitute (setter ++ "(") text
  | none => text

/-- The text with the reads of a subject rewritten. -/
def readText (text name : String) : String :=
  (member name ++ .text ".value" ++ .boundary : Pattern).substitute ("this." ++ name)
    ((member name ++ .text "." ++ .oneOf ["getValue", "asObservable"] ++ .text "()" : Pattern).substitute
      ("this." ++ name) text)

theorem recastSubject_run (state : Table String) (text name : String) (n : RecastNotes) :
    (recastSubject state text name).run n = (readText (setText (state.get? name) text name) name, { n with
      warnings := n.warnings ++
        if (member name ++ .text "." ++ .oneOf ["pipe", "subscribe"] ++ .text "(" : Pattern).occurs
          (readText (setText (state.get? name) text name) name) then [streamWarning name] else [] }) := by
  unfold recastSubject
  extract_lets text₁ text₂ text₃
  have same : text₃ = readText (setText (state.get? name) text name) name := rfl
  rw [← same]
  clear_value text₃
  cases (member name ++ .text "." ++ .oneOf ["pipe", "subscribe"] ++ .text "(" : Pattern).occurs text₃ with
  | false =>
      simp only [Bool.false_eq_true, if_false, List.append_nil]
      rfl
  | true => rfl

theorem setText_printed {setter : Option String} {bs : List Block} {text : String}
    (named : IsSubjectName name.toList) (letters : ∀ s, setter = some s → ∀ a ∈ s.toList, isName a = true)
    (orderly : Orderly bs) (blocks : text.toList = printed bs) :
    ∃ bs₁, (setText setter text name).toList = printed bs₁ ∧ Orderly bs₁ ∧
      Rule.passes (subjectRules setter name.toList) bs =
        (valueRule name.toList).pass ((getRule name.toList).pass bs₁) := by
  have kept := subjectRules_keep named letters
  cases setter with
  | none => exact ⟨bs, blocks, orderly, rfl⟩
  | some s =>
      unfold subjectRules at kept ⊢
      unfold setText
      by_cases empty : (s == "") = true
      · simp only [empty, if_true]
        exact ⟨bs, blocks, orderly, rfl⟩
      · simp only [empty] at kept ⊢
        have plain : '\\' ∉ (s ++ "(").toList := by simpa using unescaped_of_isName (letters s rfl)
        rw [if_neg (by simp), Pattern.substitute_plain _ plain]
        exact ⟨_, (nextRule_reads named.letters).replaceWith orderly.1 blocks, kept _ List.mem_cons_self bs orderly,
          rfl⟩

/-- Recasting a subject is the passes of its rules, and a warning if it is used as a stream. -/
theorem recastSubject_printed {state : Table String} {bs : List Block} {text : String}
    (named : IsSubjectName name.toList)
    (letters : ∀ setter, state.get? name = some setter → ∀ a ∈ setter.toList, isName a = true)
    (orderly : Orderly bs) (blocks : text.toList = printed bs) (n : RecastNotes) :
    ∃ text', (recastSubject state text name).run n = (text', { n with
        warnings := n.warnings ++ if streams state name bs then [streamWarning name] else [] }) ∧
      text'.toList = printed (Rule.passes (subjectRules (state.get? name) name.toList) bs) := by
  have kept := subjectRules_keep named letters
  obtain ⟨bs₁, blocks₁, orderly₁, passes⟩ := setText_printed named letters orderly blocks
  have orderly₂ := kept (getRule name.toList) (by simp [subjectRules]) bs₁ orderly₁
  have orderly₃ := kept (valueRule name.toList) (by simp [subjectRules]) _ orderly₂
  have blocks₂ := (getRule_reads named.letters).replaceWith orderly₁.1 blocks₁
  have plain : '\\' ∉ ("this." ++ name).toList := by simpa using unescaped_of_isName named.letters
  have blocks₃ : (readText (setText (state.get? name) text name) name).toList =
      printed ((valueRule name.toList).pass ((getRule name.toList).pass bs₁)) := by
    rw [readText, Pattern.substitute_plain _ plain, Pattern.substitute_plain _ plain]
    exact (valueRule_reads named.letters).replaceWith orderly₂.1 blocks₂
  rw [← passes] at orderly₃ blocks₃
  have found := ((streamRule_reads named.letters).occurs orderly₃.1 blocks₃).trans Rule.finds_iff.symm
  refine ⟨_, ?_, blocks₃⟩
  rw [recastSubject_run, Bool.eq_iff_iff.mpr found]
  rfl

/-! ### All subjects -/

section Subjects

variable {state : Table String} {subjects : List String}

/-- The passes for a subject. -/
def subjectPass (state : Table String) (bs : List Block) (name : String) : List Block :=
  Rule.passes (subjectRules (state.get? name) name.toList) bs

theorem SubjectNames.keep (names : SubjectNames state subjects) {name : String} (mem : name ∈ subjects) :
    ∀ r ∈ subjectRules (state.get? name) name.toList, ∀ bs, Orderly bs → Orderly (r.pass bs) :=
  subjectRules_keep (names.named name mem) (names.setters name mem)

theorem SubjectNames.comm (names : SubjectNames state subjects) {name name' : String} (mem : name ∈ subjects)
    (mem' : name' ∈ subjects) (different : name ≠ name') :
    ∀ r ∈ subjectRules (state.get? name) name.toList, ∀ r' ∈ subjectRules (state.get? name') name'.toList,
      ∀ bs, Orderly bs → r.pass (r'.pass bs) = r'.pass (r.pass bs) := by
  intro r rule r' rule' bs orderly
  have named := names.named name mem
  have named' := names.named name' mem'
  have chars : name.toList ≠ name'.toList := fun same => different (String.toList_inj.mp same)
  exact Rule.pass_comm
    (subjectRules_spare named named' chars rule (subjectRule_member rule') (subjectRule_dotted rule'))
    (subjectRules_spare named' named chars.symm rule' (subjectRule_member rule) (subjectRule_dotted rule))
    (subjectRules_overlook named named' (names.setters name' mem') rule rule')
    (subjectRules_overlook named' named (names.setters name mem) rule' rule) orderly.1 orderly.2.tidy

/-- Whether a subject is used as a stream does not depend on another one. -/
theorem SubjectNames.streams_pass (names : SubjectNames state subjects) {name name' : String}
    (mem : name ∈ subjects) (mem' : name' ∈ subjects) (different : name ≠ name') {bs : List Block}
    (orderly : Orderly bs) : streams state name (subjectPass state bs name') = streams state name bs := by
  have chars : name'.toList ≠ name.toList := fun same => different (String.toList_inj.mp same).symm
  have apart : ∀ (rs : List Rule), (∀ r ∈ rs, r ∈ subjectRules (state.get? name') name'.toList) →
      ∀ bs, Orderly bs → (streamRule name.toList).finds (Rule.passes rs bs) = (streamRule name.toList).finds bs := by
    intro rs
    induction rs with
    | nil => exact fun _ _ _ => rfl
    | cons r rs ih =>
        intro members bs orderly
        have rule := members r List.mem_cons_self
        refine (ih (fun r' mem => members r' (List.mem_cons_of_mem r mem)) _
          (names.keep mem' r rule bs orderly)).trans ?_
        refine Rule.finds_pass (subjectRules_spare (names.named name' mem') (names.named name mem) chars rule rfl ?_)
          (fun _ _ _ => streamRule_recast) orderly.2.tidy
        intro tail tails
        obtain ⟨method, -, rfl⟩ := List.mem_map.mp tails
        rfl
  unfold streams subjectPass
  rw [Rule.passes_comm (names.keep mem) (names.keep mem') (names.comm mem mem' different) orderly]
  exact apart _ (fun _ mem => mem) _ (Rule.passes_keep (names.keep mem) orderly)

/-- Recasting subjects: their passes, and a warning for each that is used as a stream. -/
theorem foldlM_recastSubject_printed (names : SubjectNames state subjects) {bs : List Block} {text : String}
    (orderly : Orderly bs) (blocks : text.toList = printed bs) (n : RecastNotes) :
    ∃ text', (subjects.foldlM (recastSubject state) text).run n = (text', { n with
        warnings := n.warnings ++ (subjects.filter (streams state · bs)).map streamWarning }) ∧
      text'.toList = printed (subjects.foldl (subjectPass state) bs) := by
  induction subjects generalizing bs text n with
  | nil => exact ⟨text, by simp; rfl, blocks⟩
  | cons name subjects ih =>
      have mem : name ∈ name :: subjects := List.mem_cons_self
      obtain ⟨fresh, nodup⟩ := List.nodup_cons.mp names.nodup
      obtain ⟨text₁, ran, blocks₁⟩ :=
        recastSubject_printed (names.named name mem) (names.setters name mem) orderly blocks n
      obtain ⟨text₂, ran', blocks₂⟩ := ih ⟨nodup, fun s inside => names.named s (List.mem_cons_of_mem name inside),
        fun s inside => names.setters s (List.mem_cons_of_mem name inside)⟩
        (Rule.passes_keep (names.keep mem) orderly) blocks₁
        { n with warnings := n.warnings ++ if streams state name bs then [streamWarning name] else [] }
      refine ⟨text₂, ?_, blocks₂⟩
      have others : subjects.filter (streams state · (subjectPass state bs name)) =
          subjects.filter (streams state · bs) := by
        refine List.filter_congr fun s inside => ?_
        refine names.streams_pass (List.mem_cons_of_mem name inside) mem ?_ orderly
        rintro rfl
        exact fresh inside
      rw [List.foldlM_cons, StateT.run_bind, ran]
      refine ran'.trans ?_
      rw [show Rule.passes (subjectRules (state.get? name) name.toList) bs = subjectPass state bs name from rfl, others,
        List.filter_cons]
      cases streams state name bs <;> simp

/-- On a clean and tidy text the subjects can be enumerated in any order: the text is the same, and so are the
subjects that are warned about. -/
theorem foldlM_recastSubject_perm (names : SubjectNames state subjects) {text : String} (clean : Clean text.toList)
    (tidy : Tidy text.toList) (n : RecastNotes) :
    ∃ text' streamed, ∀ order : List String, order.Perm subjects →
      (order.foldlM (recastSubject state) text).run n =
        (text', { n with warnings := n.warnings ++ (order.filter streamed).map streamWarning }) := by
  obtain ⟨bs, settled, blocks⟩ := exists_blocks clean
  have orderly : Orderly bs := ⟨settled, tended_of_tidy settled (by rwa [blocks])⟩
  refine ⟨String.ofList (printed (subjects.foldl (subjectPass state) bs)), (streams state · bs), fun order perm => ?_⟩
  have names' : SubjectNames state order := ⟨perm.nodup_iff.mpr names.nodup,
    fun name mem => names.named name (perm.mem_iff.mp mem), fun name mem => names.setters name (perm.mem_iff.mp mem)⟩
  obtain ⟨text', ran, printed'⟩ := foldlM_recastSubject_printed names' orderly blocks.symm n
  have same : order.foldl (subjectPass state) bs = subjects.foldl (subjectPass state) bs :=
    Rule.passes_perm perm (fun name mem => names'.keep mem) (fun name mem name' mem' => names'.comm mem mem') orderly
  rw [ran, ← same, ← printed', String.ofList_toList]

end Subjects

end ReactMigration.Recast
