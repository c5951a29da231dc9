import Mathlib.Data.List.Find
import ReactMigration.Proofs.Instances

/-!
Rules for the members of the instance, and many passes in a row.

A pattern that starts with a member is a rule.  Passes that change places two by two can be enumerated in
any order.
-/

namespace ReactMigration.Recast

open ReactMigration.Text
open ReactMigration.Text.Pattern (Captures isName isPath atBoundary)

variable {c d e : Cursor} {m : Match} {name : String}

/-! ### The patterns as rules -/

theorem member_takes {g h : Captures} : (member name).Takes c g d h ↔
    (atBoundary c = true ∧ c.Spans (instanceDot ++ name.toList) d) ∧ h = g := by
  have chars : ("this." ++ name).toList = instanceDot ++ name.toList := by simp [instanceDot]
  simp only [member, Pattern.seq_takes, Pattern.boundary_takes, Pattern.text_takes, chars]
  constructor
  · rintro ⟨_, _, ⟨rfl, rfl, bound⟩, spans, rfl⟩
    exact ⟨⟨bound, spans⟩, rfl⟩
  · rintro ⟨⟨bound, spans⟩, rfl⟩
    exact ⟨c, h, ⟨rfl, rfl, bound⟩, spans, rfl⟩

@[simp] theorem member_steady : (member name).Steady := by
  simp [member, Pattern.Steady]

/-- A member and a fixed text behind it. -/
theorem member_text_takes {tail : String} {g h : Captures} : (member name ++ .text tail).Takes c g d h ↔
    (atBoundary c = true ∧ c.Spans (instanceDot ++ (name.toList ++ tail.toList)) d) ∧ h = g := by
  simp only [Pattern.seq_takes, member_takes, Pattern.text_takes]
  constructor
  · rintro ⟨e, _, ⟨⟨bound, first⟩, rfl⟩, last, rfl⟩
    exact ⟨⟨bound, by simpa using first.trans last⟩, rfl⟩
  · rintro ⟨⟨bound, spans⟩, rfl⟩
    have after : c.after = instanceDot ++ name.toList ++ (tail.toList ++ d.after) := by
      rw [spans.after]
      simp
    have first := Cursor.spans_advance after
    have last := Cursor.spans_advance (first.remaining after)
    rw [(first.trans last).unique (by simpa using spans)] at last
    exact ⟨_, h, ⟨⟨bound, first⟩, rfl⟩, last, rfl⟩

/-- Names and dots, and what may close a call, hold together. -/
theorem joined_of_path {u v : List Char} (path : ∀ a ∈ u, isPath a = true) (closing : ∀ a ∈ v, isName a = false)
    {y z : List Char} {a b : Char} (split : u ++ v = y ++ a :: b :: z) (letter : isName b = true) :
    isPath a = true := by
  obtain ⟨w, rfl, rest⟩ | ⟨w, hu, rest⟩ := List.append_eq_append_iff.mp split
  · exfalso
    have := closing b (by rw [rest]; simp)
    rw [letter] at this
    cases this
  · cases w with
    | nil =>
        have := closing b (by rw [List.nil_append] at rest; rw [← rest]; simp)
        rw [letter] at this
        cases this
    | cons a' w =>
        obtain ⟨rfl, -⟩ := List.cons.inj rest
        exact path a (by rw [hu]; simp)

/-- Whether a word starts or ends between two texts. -/
def meetsWord (front rest : List Char) : Bool :=
  ((front.getLast?.map isWord).getD false) != ((rest.head?.map isWord).getD false)

theorem atBoundary_behind {x : List Char} (visible : x ≠ []) (spans : c.Spans x d) :
    atBoundary d = meetsWord x d.after := by
  have before : d.before.head? = x.getLast? := by
    rw [spans.before, List.head?_append, List.head?_reverse]
    obtain ⟨a, last⟩ := Option.isSome_iff_exists.mp (List.getLast?_isSome.mpr visible)
    rw [last]
    rfl
  rw [atBoundary, before, meetsWord]

/-- A rule with one text behind the member. -/
def Rule.single (name tail : List Char) (test : List Char → Bool) (live : Bool)
    (result : List Char → List Char) : Rule :=
  ⟨name, [tail], fun _ => test, live, result⟩

theorem Rule.single_reads {p : Pattern} {f : Match → List Char} {name : List Char} (path closing : List Char)
    (test : List Char → Bool) (live : Bool) (result : List Char → List Char) (steady : p.Steady)
    (letters : ∀ a ∈ name, isName a = true) (inPath : ∀ a ∈ path, isPath a = true)
    (closes : ∀ a ∈ closing, isName a = false)
    (takes : ∀ c d h, p.Takes c [] d h ↔
      (atBoundary c = true ∧ c.Spans (instanceDot ++ (name ++ (path ++ closing))) d) ∧ test d.after = true ∧ h = [])
    (writes : ∀ c m, p.matchAt? c = some m →
      f m = (if live then instanceDot else []) ++ result m.rest.after) :
    (Rule.single name (path ++ closing) test live result).Reads p f where
  steady := steady
  takes c d h := by simp [takes, single, and_assoc]
  joined tail mem y a b z split letter := by
    obtain rfl := List.mem_singleton.mp mem
    refine joined_of_path (u := name ++ path) (v := closing) ?_ closes (by rw [← split]; simp [single]) letter
    intro a mem
    obtain mem | mem := List.mem_append.mp mem
    · rw [isPath, letters a mem, Bool.true_or]
    · exact inPath a mem
  apart tail mem tail' mem' _ := by
    rw [List.mem_singleton.mp mem, List.mem_singleton.mp mem']
  writes := writes

/-- A member with a path behind it, and a word boundary at its end. -/
theorem bounded_reads {p : Pattern} {name path : List Char} (live : Bool) (result : List Char) (written : String)
    (steady : p.Steady) (letters : ∀ a ∈ name, isName a = true) (inPath : ∀ a ∈ path, isPath a = true)
    (takes : ∀ c g d h, p.Takes c g d h ↔
      (atBoundary c = true ∧ c.Spans (instanceDot ++ (name ++ path)) d) ∧ h = g)
    (writes : written.toList = (if live then instanceDot else []) ++ result) :
    (Rule.single name path (meetsWord (instanceDot ++ (name ++ path))) live (fun _ => result)).Reads
      (p ++ .boundary) (fun _ => written.toList) := by
  have reads := Rule.single_reads (p := p ++ .boundary) (f := fun _ => written.toList) path []
    (meetsWord (instanceDot ++ (name ++ path))) live (fun _ => result) ?steady letters inPath (by simp) ?takes
    (fun _ _ _ => writes)
  case steady =>
    rw [Pattern.seq_steady]
    exact ⟨steady, trivial⟩
  case takes =>
    intro c d h
    simp only [Pattern.seq_takes, takes, Pattern.boundary_takes, List.append_nil]
    constructor
    · rintro ⟨e, _, ⟨⟨bound, spans⟩, rfl⟩, rfl, rfl, ends⟩
      rw [atBoundary_behind (by simp [instanceDot]) spans] at ends
      exact ⟨⟨bound, spans⟩, ends, rfl⟩
    · rintro ⟨⟨bound, spans⟩, ends, rfl⟩
      rw [← atBoundary_behind (by simp [instanceDot]) spans] at ends
      exact ⟨d, [], ⟨⟨bound, spans⟩, rfl⟩, rfl, rfl, ends⟩
  simpa using reads

/-! ### Calm text -/

/-- The text is calm where a word, or none, runs into it. -/
def CalmFrom (word : Bool) (x : List Char) : Prop :=
  ∀ y z, x = y ++ (instanceDot ++ z) → (y.getLast?.map isWord).getD word = true

theorem Calm.from {x : List Char} (calm : Calm x) : CalmFrom false x := by
  intro y z split
  obtain ⟨a, last, word⟩ := calm y z split
  rw [last, Option.map_some, Option.getD_some, word]

theorem CalmFrom.cons {word : Bool} {a : Char} {x : List Char} (starts : a = 't' → word = true)
    (rest : CalmFrom (isWord a) x) : CalmFrom word (a :: x) := by
  intro y z split
  cases y with
  | nil => exact starts (List.cons.inj split).1
  | cons b y =>
      obtain ⟨rfl, inner⟩ := List.cons.inj split
      have := rest y z inner
      cases y with
      | nil => exact this
      | cons b y => exact this

theorem CalmFrom.behind {word : Bool} {u x : List Char} (calm : CalmFrom word (u ++ x)) (visible : u ≠ []) :
    CalmFrom ((u.getLast?.map isWord).getD false) x := by
  intro y z split
  have inner := calm (u ++ y) z (by rw [split, List.append_assoc])
  cases y with
  | nil =>
      obtain ⟨a, last⟩ := Option.isSome_iff_exists.mp (List.getLast?_isSome.mpr visible)
      rw [List.append_nil, last] at inner
      rw [last]
      exact inner
  | cons b y =>
      rw [getLast?_append_visible (List.cons_ne_nil b y)] at inner
      exact inner

theorem CalmFrom.mono {word : Bool} {x : List Char} (calm : CalmFrom word x) : CalmFrom true x := by
  intro y z split
  have inner := calm y z split
  cases y with
  | nil => rfl
  | cons b y => exact inner

/-- A name and calm text behind it are calm, if the name does not end with the keyword. -/
theorem calm_name {name behind : List Char} (letters : ∀ a ∈ name, isName a = true) (ends : NotNext isName behind)
    (keyword : behind.head? = some '.' → ¬ "this".toList <:+ name) (calm : CalmFrom true behind) :
    Calm (name ++ behind) := by
  intro y z split
  obtain ⟨w, rfl, rest⟩ | ⟨w, hname, rest⟩ := List.append_eq_append_iff.mp split
  · have inner := calm w z rest
    cases w with
    | nil =>
        exact absurd (ends 't' (by rw [rest]; rfl)) (by decide)
    | cons b w =>
        obtain ⟨a, last⟩ := Option.isSome_iff_exists.mp (List.getLast?_isSome.mpr (List.cons_ne_nil b w))
        rw [last] at inner
        exact ⟨a, by rwa [getLast?_append_visible (List.cons_ne_nil b w)], inner⟩
  · -- the keyword would start within the name, and its dot stand behind it
    exfalso
    have word : ∀ a ∈ "this".toList, isName a = true := List.all_eq_true.mp (by decide)
    have dotless : '.' ∉ w := by
      intro mem
      exact absurd (letters '.' (by rw [hname]; simp [mem])) (by decide)
    change "this".toList ++ '.' :: z = w ++ behind at rest
    obtain ⟨u, hw, -⟩ | ⟨u, hu, rest'⟩ := List.append_eq_append_iff.mp rest
    · cases u with
      | nil =>
          rw [List.append_nil] at hw
          subst hw
          have rest := List.append_cancel_left rest
          exact keyword (by rw [← rest]; rfl) ⟨y, hname.symm⟩
      | cons b u =>
          rw [hw, List.append_assoc] at rest
          obtain ⟨rfl, -⟩ := List.cons.inj (List.append_cancel_left rest)
          exact dotless (by rw [hw]; simp)
    · cases u with
      | nil =>
          rw [List.append_nil] at hu
          subst hu
          exact keyword (by rw [rest']; rfl) ⟨y, hname.symm⟩
      | cons b u =>
          have := ends b (by rw [rest']; rfl)
          rw [word b (by rw [hu]; simp)] at this
          cases this

/-! ### What stands behind a block -/

theorem EndsFresh.behind {u x : List Char} (fresh : EndsFresh (u ++ x)) (visible : x ≠ []) : EndsFresh x := by
  obtain ⟨a, last, notPath⟩ := fresh
  rw [getLast?_append_visible visible] at last
  exact ⟨a, last, notPath⟩

theorem EndsFresh.behind_path {u x : List Char} (fresh : EndsFresh (u ++ x)) (path : ∀ a ∈ u, isPath a = true) :
    EndsFresh x := by
  refine fresh.behind ?_
  rintro rfl
  obtain ⟨a, last, notPath⟩ := fresh
  rw [List.append_nil] at last
  rw [path a (List.mem_of_getLast? last)] at notPath
  cases notPath

theorem EndsFresh.append {x : List Char} (fresh : EndsFresh x) (y : List Char) : EndsFresh (y ++ x) := by
  obtain ⟨a, last, notPath⟩ := fresh
  have visible : x ≠ [] := by
    rintro rfl
    cases last
  exact ⟨a, by rwa [getLast?_append_visible visible], notPath⟩

/-- The text starts with a name and holds no end of an index. -/
def Unbroken (x : List Char) : Prop :=
  (∃ a ∈ x.head?, isName a = true) ∧ ']' ∉ x

/-- A property of the text behind a place that does not look into the fronts of blocks is kept by a pass. -/
theorem Rule.pass_iff {r : Rule} (property : List Char → Prop)
    (swap : ∀ {x w w' y}, EndsFresh x → Unbroken w → Unbroken w' → property (x ++ (w ++ y)) →
      property (x ++ (w' ++ y)))
    (fronts : ∀ tail ∈ r.tails, Unbroken (instanceDot ++ (r.member ++ tail)))
    (results : ∀ rest, Unbroken ((if r.live then instanceDot else []) ++ r.result rest))
    {x : List Char} {bs : List Block} (settled : Settled bs) (fresh : bs ≠ [] → EndsFresh x) :
    property (x ++ printed (r.pass bs)) ↔ property (x ++ printed bs) := by
  induction bs generalizing x with
  | nil => rfl
  | cons b bs ih =>
      obtain ⟨-, ends, -, rest⟩ := settled
      have further : property (x ++ (b.chars ++ printed (r.pass bs))) ↔ property (x ++ (b.chars ++ printed bs)) := by
        rw [← List.append_assoc, ← List.append_assoc]
        refine ih rest fun more => ?_
        rw [Block.chars, ← List.append_assoc]
        exact (ends more).append _
      rw [pass, printed_cons, printed_cons, ← further]
      cases kind : b.live with
      | false => rfl
      | true =>
          cases applied : r.recast? b.text (printed bs) with
          | none => rfl
          | some b' =>
              obtain ⟨tail, mem, behind, text, -, rfl⟩ := recast?_eq_some applied
              have before : b.chars = instanceDot ++ (r.member ++ tail) ++ behind := by
                simp [Block.chars, kind, text]
              have after : Block.chars ⟨r.live, r.result (behind ++ printed bs) ++ behind⟩ =
                  (if r.live then instanceDot else []) ++ r.result (behind ++ printed bs) ++ behind := by
                simp [Block.chars]
              simp only [if_true, Option.getD_some, before, after]
              rw [List.append_assoc, List.append_assoc _ behind]
              have front := fronts tail mem
              have result := results (behind ++ printed bs)
              have fresh := fresh (List.cons_ne_nil b bs)
              exact ⟨swap fresh result front, swap fresh front result⟩

/-- A rule overlooks another one if its test and its result do so. -/
theorem Rule.overlooks_of {r r' : Rule}
    (same : ∀ tail ∈ r.tails, ∀ {behind bs}, Settled bs → (bs ≠ [] → EndsFresh (r.member ++ (tail ++ behind))) →
      r.test tail (behind ++ printed (r'.pass bs)) = r.test tail (behind ++ printed bs) ∧
        r.result (behind ++ printed (r'.pass bs)) = r.result (behind ++ printed bs)) : r.Overlooks r' := by
  intro b bs settled live
  have each : ∀ tail ∈ r.tails, (r.member ++ tail).isPrefixOf b.text = true →
      r.test tail (b.text.drop (r.member ++ tail).length ++ printed (r'.pass bs)) =
          r.test tail (b.text.drop (r.member ++ tail).length ++ printed bs) ∧
        r.result (b.text.drop (r.member ++ tail).length ++ printed (r'.pass bs)) =
          r.result (b.text.drop (r.member ++ tail).length ++ printed bs) := by
    intro tail mem starts
    obtain ⟨behind, text⟩ := List.isPrefixOf_iff_prefix.mp starts
    rw [← text, List.drop_left]
    refine same tail mem settled.2.2.2 fun more => ?_
    rw [← List.append_assoc, text]
    exact settled.2.1 more
  have finds : (r.tails.find? fun tail => (r.member ++ tail).isPrefixOf b.text &&
        r.test tail (b.text.drop (r.member ++ tail).length ++ printed (r'.pass bs))) =
      r.tails.find? fun tail => (r.member ++ tail).isPrefixOf b.text &&
        r.test tail (b.text.drop (r.member ++ tail).length ++ printed bs) := by
    refine List.find?_congr fun tail mem => ?_
    cases starts : (r.member ++ tail).isPrefixOf b.text with
    | false => rfl
    | true => rw [(each tail mem starts).1]
  rw [recast?, recast?, finds]
  refine Option.map_congr fun tail first => ?_
  have holds := List.find?_some first
  rw [Bool.and_eq_true] at holds
  simp only [(each tail (List.mem_of_find?_eq_some first) holds.1).2]

/-- A rule whose fronts are paths overlooks another one if its test and its result do not look into the fronts
of blocks. -/
theorem Rule.overlooks_of_path {r r' : Rule} (path : ∀ tail ∈ r.tails, ∀ a ∈ r.member ++ tail, isPath a = true)
    (test : ∀ tail ∈ r.tails, ∀ {x w w' y}, EndsFresh x → Unbroken w → Unbroken w' →
      r.test tail (x ++ (w ++ y)) = true → r.test tail (x ++ (w' ++ y)) = true)
    (result : ∀ {v x w w' y}, EndsFresh x → Unbroken w → Unbroken w' →
      r.result (x ++ (w ++ y)) = v → r.result (x ++ (w' ++ y)) = v)
    (fronts : ∀ tail ∈ r'.tails, Unbroken (instanceDot ++ (r'.member ++ tail)))
    (results : ∀ rest, Unbroken ((if r'.live then instanceDot else []) ++ r'.result rest)) : r.Overlooks r' := by
  refine overlooks_of fun tail mem behind bs settled ends => ?_
  have fresh : bs ≠ [] → EndsFresh behind := by
    intro more
    have ends := ends more
    rw [← List.append_assoc] at ends
    exact ends.behind_path (path tail mem)
  constructor
  · exact Bool.eq_iff_iff.mpr (pass_iff (fun z => r.test tail z = true) (test tail mem) fronts results
      settled fresh)
  · exact (pass_iff (fun z => r.result z = r.result (behind ++ printed bs)) result fronts results
      settled fresh).mpr rfl

theorem meetsWord_swap {u x w w' y : List Char} (fresh : EndsFresh x) (meets : meetsWord u (x ++ (w ++ y)) = true) :
    meetsWord u (x ++ (w' ++ y)) = true := by
  obtain ⟨a, last, -⟩ := fresh
  cases x with
  | nil => cases last
  | cons b x => exact meets

/-! ### Passes in a row -/

/-- The passes of some rules. -/
def Rule.passes (rs : List Rule) (bs : List Block) : List Block :=
  rs.foldl (fun bs r => r.pass bs) bs

section Enumeration

variable {holds : List Block → Prop} {bs : List Block}

theorem Rule.passes_keep {rs : List Rule} (kept : ∀ r ∈ rs, ∀ bs, holds bs → holds (r.pass bs))
    (start : holds bs) : holds (passes rs bs) := by
  induction rs generalizing bs with
  | nil => exact start
  | cons r rs ih =>
      exact ih (fun r' mem => kept r' (List.mem_cons_of_mem r mem)) (kept r List.mem_cons_self bs start)

theorem Rule.pass_passes {r : Rule} {rs : List Rule} (kept : ∀ r' ∈ rs, ∀ bs, holds bs → holds (r'.pass bs))
    (comm : ∀ r' ∈ rs, ∀ bs, holds bs → r.pass (r'.pass bs) = r'.pass (r.pass bs)) (start : holds bs) :
    r.pass (passes rs bs) = passes rs (r.pass bs) := by
  induction rs generalizing bs with
  | nil => rfl
  | cons r' rs ih =>
      have further := ih (fun r mem => kept r (List.mem_cons_of_mem r' mem))
        (fun r mem => comm r (List.mem_cons_of_mem r' mem)) (kept r' List.mem_cons_self bs start)
      rw [comm r' List.mem_cons_self bs start] at further
      exact further

theorem Rule.passes_comm {rs rs' : List Rule} (kept : ∀ r ∈ rs, ∀ bs, holds bs → holds (r.pass bs))
    (kept' : ∀ r ∈ rs', ∀ bs, holds bs → holds (r.pass bs))
    (comm : ∀ r ∈ rs, ∀ r' ∈ rs', ∀ bs, holds bs → r.pass (r'.pass bs) = r'.pass (r.pass bs))
    (start : holds bs) : passes rs (passes rs' bs) = passes rs' (passes rs bs) := by
  induction rs generalizing bs with
  | nil => rfl
  | cons r rs ih =>
      change passes rs (r.pass (passes rs' bs)) = passes rs' (passes rs (r.pass bs))
      rw [pass_passes kept' (comm r List.mem_cons_self) start]
      exact ih (fun r' mem => kept r' (List.mem_cons_of_mem r mem))
        (fun r' mem => comm r' (List.mem_cons_of_mem r mem)) (kept r List.mem_cons_self bs start)

/-- Families of passes that change places two by two can be enumerated in any order. -/
theorem Rule.passes_perm {α : Type} {rules : α → List Rule} {l l' : List α} (perm : l.Perm l')
    (kept : ∀ a ∈ l, ∀ r ∈ rules a, ∀ bs, holds bs → holds (r.pass bs))
    (comm : ∀ a ∈ l, ∀ a' ∈ l, a ≠ a' → ∀ r ∈ rules a, ∀ r' ∈ rules a', ∀ bs, holds bs →
      r.pass (r'.pass bs) = r'.pass (r.pass bs)) (start : holds bs) :
    l.foldl (fun bs a => passes (rules a) bs) bs = l'.foldl (fun bs a => passes (rules a) bs) bs := by
  induction perm generalizing bs with
  | nil => rfl
  | cons a _ ih =>
      exact ih (fun a' mem => kept a' (List.mem_cons_of_mem a mem))
        (fun a₁ mem₁ a₂ mem₂ => comm a₁ (List.mem_cons_of_mem a mem₁) a₂ (List.mem_cons_of_mem a mem₂))
        (passes_keep (kept a List.mem_cons_self) start)
  | swap a a' l =>
      simp only [List.foldl_cons]
      by_cases same : a = a'
      · rw [same]
      · rw [passes_comm (kept a (by simp)) (kept a' (by simp)) (comm a (by simp) a' (by simp) same) start]
  | trans first _ ih ih' =>
      rw [ih kept comm start]
      exact ih' (fun a mem => kept a (first.mem_iff.mpr mem))
        (fun a mem a' mem' => comm a (first.mem_iff.mpr mem) a' (first.mem_iff.mpr mem')) start

end Enumeration

end ReactMigration.Recast
