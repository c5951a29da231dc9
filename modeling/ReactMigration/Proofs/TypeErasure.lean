import Mathlib.Data.List.Sort
import ReactMigration.TypeScript.Erasure

/-!
Type erasure as a property of places.

`cut` keeps exactly the characters that no stretch covers, whatever the order in which the stretches
come and however they overlap.  The stretches that are collected from a tree cover exactly the places
that some node of the tree erases, each node deciding by its kind and its own children alone.
-/

namespace ReactMigration.TypeScript

/-! ### Cutting -/

/-- The place lies in the stretch. -/
def Range.covers (r : Range) (i : Nat) : Bool :=
  r.start ≤ i && i < r.stop

theorem Range.covers_iff {r : Range} {i : Nat} : r.covers i = true ↔ r.start ≤ i ∧ i < r.stop := by
  simp [covers]

/-- The characters at the places that are kept, in order, the first character standing at `place`. -/
def keepFrom (place : Nat) (keeps : Nat → Bool) (cs : List Char) : List Char :=
  ((cs.zipIdx place).filter fun c => keeps c.2).map (·.1)

section Keeping

variable {keeps keeps' : Nat → Bool} {start stop : Nat}

theorem keepFrom_cons (place : Nat) (keeps : Nat → Bool) (c : Char) (cs : List Char) :
    keepFrom place keeps (c :: cs) =
      if keeps place then c :: keepFrom (place + 1) keeps cs else keepFrom (place + 1) keeps cs := by
  simp only [keepFrom, List.zipIdx_cons, List.filter_cons]
  split <;> rfl

theorem keepFrom_congr {place : Nat} {cs : List Char} (same : ∀ i, place ≤ i → keeps i = keeps' i) :
    keepFrom place keeps cs = keepFrom place keeps' cs := by
  unfold keepFrom
  congr 1
  exact List.filter_congr fun c mem => same c.2 (List.le_snd_of_mem_zipIdx mem)

/-- Up to a stretch everything is kept, and in it nothing. -/
theorem keepFrom_stretch {place : Nat} (kept : ∀ i, place ≤ i → i < start → keeps i = true)
    (dropped : ∀ i, max start place ≤ i → i < stop → keeps i = false) (proper : start ≤ stop)
    (cs : List Char) :
    keepFrom place keeps cs =
      cs.take (start - place) ++ keepFrom (max place stop) keeps (cs.drop (stop - place)) := by
  induction cs generalizing place with
  | nil => simp [keepFrom]
  | cons c cs ih =>
      have behind (i : Nat) (reached : place + 1 ≤ i) : i < start → keeps i = true := kept i (by omega)
      have further := ih behind fun i reached => dropped i (by omega)
      rw [keepFrom_cons]
      by_cases before : place < start
      · have one : start - place = start - (place + 1) + 1 := by omega
        have step : stop - place = stop - (place + 1) + 1 := by omega
        have ends : max (place + 1) stop = max place stop := by omega
        rw [if_pos (kept place (Nat.le_refl _) before), further, one, step, ends]
        rfl
      · by_cases within : place < stop
        · have none : start - place = 0 := by omega
          have none' : start - (place + 1) = 0 := by omega
          have step : stop - place = stop - (place + 1) + 1 := by omega
          have ends : max (place + 1) stop = max place stop := by omega
          rw [if_neg (by simp [dropped place (by omega) within]), further, none, none', step, ends]
          rfl
        · have none : start - place = 0 := by omega
          have none' : stop - place = 0 := by omega
          have ends : max place stop = place := by omega
          rw [none, none', ends, List.take_zero, List.drop_zero, List.nil_append, keepFrom_cons]

end Keeping

/-- Cutting ordered stretches keeps what none of them covers. -/
theorem cutFrom_eq {ranges : List Range} (sorted : ranges.Pairwise fun a b => a.start ≤ b.start) :
    ∀ (place : Nat) (cs : List Char),
      cutFrom place cs ranges = keepFrom place (fun i => !ranges.any (·.covers i)) cs := by
  induction ranges with
  | nil =>
      intro place cs
      simp [cutFrom, keepFrom]
  | cons r rest ih =>
      obtain ⟨start, stop⟩ := r
      intro place cs
      obtain ⟨later, sorted⟩ := List.pairwise_cons.mp sorted
      have passed (i : Nat) (behind : i < max start place ∨ stop ≤ i) (reached : place ≤ i) :
          (Range.mk start stop :: rest).any (·.covers i) = rest.any (·.covers i) := by
        have outside : Range.covers ⟨start, stop⟩ i = false := by
          rw [← Bool.not_eq_true, Range.covers_iff]
          dsimp only
          omega
        rw [List.any_cons, outside, Bool.false_or]
      rw [cutFrom]
      split
      · rename_i empty
        rw [ih sorted]
        refine keepFrom_congr fun i reached => ?_
        rw [passed i (by omega) reached]
      · rename_i some
        have kept (i : Nat) (reached : place ≤ i) (short : i < max start place) :
            (!(Range.mk start stop :: rest).any (·.covers i)) = true := by
          -- the stretches that follow do not start before this one
          have outside : ∀ r ∈ rest, ¬ r.covers i = true := by
            intro r mem
            have := later r mem
            dsimp only at this
            rw [Range.covers_iff]
            omega
          rw [passed i (.inl short) reached, List.any_eq_false.mpr outside, Bool.not_false]
        have dropped (i : Nat) (reached : max (max start place) place ≤ i) (short : i < stop) :
            (!(Range.mk start stop :: rest).any (·.covers i)) = false := by
          have covered : Range.covers ⟨start, stop⟩ i = true := by
            rw [Range.covers_iff]
            dsimp only
            omega
          rw [List.any_cons, covered, Bool.true_or, Bool.not_true]
        have ends : max place stop = stop := by omega
        rw [keepFrom_stretch kept dropped (by omega), ih sorted, ends]
        congr 1
        refine keepFrom_congr fun i reached => ?_
        rw [passed i (.inr reached) (by omega)]

theorem Range.before_iff {a b : Range} :
    a.before b = true ↔ a.start < b.start ∨ a.start = b.start ∧ a.stop ≤ b.stop := by
  simp [before]

/-- Cutting keeps what no stretch covers. -/
theorem cut_eq (cs : List Char) (ranges : List Range) :
    cut cs ranges = keepFrom 0 (fun i => !ranges.any (·.covers i)) cs := by
  have sorted : (ranges.mergeSort Range.before).Pairwise fun a b => a.start ≤ b.start := by
    refine (List.pairwise_mergeSort ?_ ?_ ranges).imp fun {a b} h => ?_
    · intro a b c ab bc
      rw [Range.before_iff] at ab bc ⊢
      omega
    · intro a b
      rw [Bool.or_eq_true, Range.before_iff, Range.before_iff]
      omega
    · rw [Range.before_iff] at h
      omega
  rw [cut, cutFrom_eq sorted]
  exact keepFrom_congr fun i _ => by rw [(List.mergeSort_perm ranges _).any_eq]

/-! ### Trees -/

mutual

/-- The nodes of a tree, each before its children. -/
def Node.parts : Node → List Node
  | .mk k r s t cs => .mk k r s t cs :: partsOf cs

/-- The nodes of several trees. -/
def partsOf : List Node → List Node
  | [] => []
  | c :: cs => c.parts ++ partsOf cs

end

theorem mem_partsOf {cs : List Node} {n : Node} : n ∈ partsOf cs ↔ ∃ c ∈ cs, n ∈ c.parts := by
  induction cs with
  | nil => simp [partsOf]
  | cons c cs ih => simp [partsOf, ih]

theorem Node.self_mem_parts (n : Node) : n ∈ n.parts := by
  cases n
  rw [parts]
  exact List.mem_cons_self

/-- The tree is laid over its text: the children of each node stand in order, apart from one another
and inside of their parent, and tokens are leaves. -/
structure Node.WellLaid (root : Node) : Prop where
  ordered : ∀ n ∈ root.parts, n.start ≤ n.stop
  inside : ∀ n ∈ root.parts, ∀ c ∈ n.children, n.start ≤ c.start ∧ c.stop ≤ n.stop
  apart : ∀ n ∈ root.parts, n.children.Pairwise fun a b => a.stop ≤ b.start
  tokens : ∀ n ∈ root.parts, n.kind.isNamed = false → n.children = []

theorem Node.WellLaid.child {k : Kind} {r : Role} {s t : Nat} {cs : List Node}
    (h : (Node.mk k r s t cs).WellLaid) {c : Node} (mem : c ∈ cs) : c.WellLaid := by
  have part {n : Node} (hn : n ∈ c.parts) : n ∈ (Node.mk k r s t cs).parts := by
    rw [parts]
    exact List.mem_cons_of_mem _ (mem_partsOf.mpr ⟨c, mem, hn⟩)
  exact ⟨fun n hn => h.ordered n (part hn), fun n hn => h.inside n (part hn),
    fun n hn => h.apart n (part hn), fun n hn => h.tokens n (part hn)⟩

@[simp] theorem Node.kind_mk {k : Kind} {r : Role} {s t : Nat} {cs : List Node} :
    (Node.mk k r s t cs).kind = k :=
  rfl

@[simp] theorem Node.children_mk {k : Kind} {r : Role} {s t : Nat} {cs : List Node} :
    (Node.mk k r s t cs).children = cs :=
  rfl

@[simp] theorem Node.range_mk {k : Kind} {r : Role} {s t : Nat} {cs : List Node} :
    (Node.mk k r s t cs).range = ⟨s, t⟩ :=
  rfl

/-- A fact about all trees, from the fact about the children of each. -/
theorem Node.induct {P : Node → Prop}
    (step : ∀ k r s t cs, (∀ c ∈ cs, P c) → P (.mk k r s t cs)) : ∀ n, P n
  | .mk k r s t cs => step k r s t cs fun c _ => induct step c

/-! ### What a node erases -/

/-- The node is erased as a whole: a part that holds types alone, the declaration of a type, the export
of one, or an import of types. -/
def Node.isTypeOnly (n : Node) : Bool :=
  isTypePart n.kind || isTypeDeclaration n.kind ||
    n.kind == .exportStatement && n.children.any (isTypeDeclaration ·.kind) ||
    n.kind == .importStatement && n.children.any (·.kind == .token "type")

/-- The place is in a child of the node that is the given token. -/
def Node.marks (n : Node) (text : String) (i : Nat) : Bool :=
  n.children.any fun c => c.kind == .token text && c.range.covers i

/-- The node is the reason to leave out the character at the place: the place is in it, and it is
erased as a whole; or it is a cast, and the place is behind its operand; or the place is in its mark for
a value that is present or for a parameter that may be absent. -/
def Node.erases (n : Node) (i : Nat) : Bool :=
  n.isTypeOnly && n.range.covers i ||
    isCast n.kind && n.namedChildren.head?.any (fun operand => operand.stop ≤ i && i < n.stop) ||
    n.kind == .nonNullExpression && n.marks "!" i || n.kind == .optionalParameter && n.marks "?" i

/-- Some node of the tree erases the place. -/
def Node.erased (n : Node) (i : Nat) : Bool :=
  n.parts.any (·.erases i)

/-- Some node of one of the trees erases the place. -/
def erasedIn (cs : List Node) (i : Nat) : Bool :=
  (partsOf cs).any (·.erases i)

section Erased

variable {k : Kind} {r : Role} {s t i : Nat} {cs : List Node} {n : Node}

theorem erased_mk :
    (Node.mk k r s t cs).erased i = ((Node.mk k r s t cs).erases i || erasedIn cs i) := by
  rw [Node.erased, Node.parts, List.any_cons, erasedIn]

theorem erasedIn_cons (c : Node) (cs : List Node) (i : Nat) :
    erasedIn (c :: cs) i = (c.erased i || erasedIn cs i) := by
  rw [erasedIn, partsOf, List.any_append, Node.erased, erasedIn]

theorem erasedIn_iff : erasedIn cs i = true ↔ ∃ c ∈ cs, c.erased i = true := by
  induction cs with
  | nil => simp [erasedIn, partsOf]
  | cons c cs ih => simp [erasedIn_cons, ih]

/-- A token erases nothing. -/
theorem erased_token (laid : n.WellLaid) (token : n.kind.isNamed = false) : n.erased i = false := by
  have leaf := laid.tokens n n.self_mem_parts token
  obtain ⟨k, r, s, t, cs⟩ := n
  obtain rfl : cs = [] := leaf
  cases k with
  | token text =>
      simp [erased_mk, erasedIn, partsOf, Node.erases, Node.isTypeOnly, isTypePart, isTypeDeclaration,
        isCast]
  | _ => cases token

/-- A node erases places of its own stretch only. -/
theorem covers_of_erases (laid : n.WellLaid) (h : n.erases i = true) : n.range.covers i = true := by
  have inside := laid.inside n n.self_mem_parts
  have ordered {c : Node} (mem : c ∈ n.children) : c.start ≤ c.stop := by
    obtain ⟨k, r, s, t, cs⟩ := n
    exact (laid.child mem).ordered c c.self_mem_parts
  have mark {text : String} (h : n.marks text i = true) : n.range.covers i = true := by
    obtain ⟨c, mem, h⟩ := List.any_eq_true.mp h
    have within := Range.covers_iff.mp (Bool.and_eq_true_iff.mp h).2
    have := inside c mem
    rw [Range.covers_iff]
    dsimp only [Node.range] at within ⊢
    omega
  simp only [Node.erases, Bool.or_eq_true, Bool.and_eq_true] at h
  rcases h with ((⟨-, covers⟩ | ⟨-, tail⟩) | ⟨-, present⟩) | ⟨-, optional⟩
  · exact covers
  · obtain ⟨operand, found, behind⟩ := (Option.any_eq_true _ _).mp tail
    have mem : operand ∈ n.children := List.mem_of_mem_filter (List.mem_of_head? found)
    have := inside operand mem
    have := ordered mem
    rw [Range.covers_iff]
    simp only [Bool.and_eq_true, decide_eq_true_eq] at behind
    dsimp only [Node.range]
    omega
  · exact mark present
  · exact mark optional

theorem covers_of_erased (laid : n.WellLaid) (h : n.erased i = true) : n.range.covers i = true := by
  revert laid h
  refine Node.induct (P := fun n => n.WellLaid → n.erased i = true → n.range.covers i = true)
    (fun k r s t cs ih laid h => ?_) n
  rw [erased_mk, Bool.or_eq_true] at h
  rcases h with own | child
  · exact covers_of_erases laid own
  · obtain ⟨c, mem, h⟩ := erasedIn_iff.mp child
    have within := Range.covers_iff.mp (ih c mem (laid.child mem) h)
    have := laid.inside _ (Node.self_mem_parts _) c mem
    rw [Range.covers_iff]
    dsimp only [Node.range, Node.start, Node.stop] at within this ⊢
    omega

/-- A node that is erased as a whole. -/
theorem erased_whole (laid : n.WellLaid) (whole : n.isTypeOnly = true) :
    n.erased i = n.range.covers i := by
  refine Bool.eq_iff_iff.mpr ⟨covers_of_erased laid, fun h => ?_⟩
  exact List.any_eq_true.mpr ⟨n, n.self_mem_parts, by simp [Node.erases, whole, h]⟩

end Erased

/-! ### What is collected -/

/-- What is collected from a tree covers what its nodes erase, and the export around it if it is the
declaration of a type. -/
def Collects (outer : Option Range) (i : Nat) (n : Node) : Prop :=
  (typeRanges outer n).any (·.covers i) =
    (n.erased i || isTypeDeclaration n.kind && outer.any (·.covers i))

theorem Collects.alone {i : Nat} {n : Node} (h : Collects none i n) :
    (typeRanges none n).any (·.covers i) = n.erased i := by
  rw [h, Option.any_none, Bool.and_false, Bool.or_false]

section Collecting

variable {outer : Option Range} {i : Nat} {cs : List Node}

theorem childRanges_covers (each : ∀ c ∈ cs, Collects outer i c) :
    (childRanges outer cs).any (·.covers i) =
      (erasedIn cs i || cs.any (isTypeDeclaration ·.kind) && outer.any (·.covers i)) := by
  induction cs with
  | nil => rfl
  | cons c cs ih =>
      obtain ⟨first, rest⟩ := List.forall_mem_cons.mp each
      rw [childRanges, List.any_append, first, ih rest, erasedIn_cons, List.any_cons]
      cases c.erased i <;> cases erasedIn cs i <;> cases isTypeDeclaration c.kind <;>
        cases outer.any (·.covers i) <;> simp

theorem tokenRanges_covers {text : String} (each : ∀ c ∈ cs, Collects none i c)
    (laid : ∀ c ∈ cs, c.WellLaid) :
    (tokenRanges text cs).any (·.covers i) =
      (erasedIn cs i || cs.any fun c => c.kind == .token text && c.range.covers i) := by
  induction cs with
  | nil => rfl
  | cons c cs ih =>
      obtain ⟨first, rest⟩ := List.forall_mem_cons.mp each
      obtain ⟨laid, others⟩ := List.forall_mem_cons.mp laid
      rw [tokenRanges, List.any_append, ih rest others, erasedIn_cons, List.any_cons]
      by_cases token : c.kind = .token text
      · rw [if_pos (beq_iff_eq.mpr token), erased_token laid (by rw [token]; rfl), token]
        simp only [List.any_cons, List.any_nil, Bool.or_false, Bool.false_or, beq_self_eq_true,
          Bool.true_and]
        cases c.range.covers i <;> cases erasedIn cs i <;> rfl
      · rw [if_neg (by simpa using token), first.alone, beq_eq_false_iff_ne.mpr token,
          Bool.false_and, Bool.false_or, Bool.or_assoc]

theorem operandRanges_covers (each : ∀ c ∈ cs, Collects none i c) :
    (operandRanges cs).any (·.covers i) = (cs.find? (·.kind.isNamed)).any (·.erased i) := by
  induction cs with
  | nil => rfl
  | cons c cs ih =>
      obtain ⟨first, rest⟩ := List.forall_mem_cons.mp each
      rw [operandRanges, List.find?_cons]
      cases named : c.kind.isNamed with
      | true => simpa using first.alone
      | false => simpa using ih rest

/-- Of the parts of a cast only its operand can erase a place that is not behind the operand. -/
theorem erasedIn_cast {t : Nat} (laid : ∀ c ∈ cs, c.WellLaid) (inside : ∀ c ∈ cs, c.stop ≤ t)
    (apart : cs.Pairwise fun a b => a.stop ≤ b.start) :
    (erasedIn cs i ||
        (cs.find? (·.kind.isNamed)).any fun operand => operand.stop ≤ i && i < t) =
      ((cs.find? (·.kind.isNamed)).any (·.erased i) ||
        (cs.find? (·.kind.isNamed)).any fun operand => operand.stop ≤ i && i < t) := by
  induction cs with
  | nil => rfl
  | cons c cs ih =>
      obtain ⟨here, laid⟩ := List.forall_mem_cons.mp laid
      obtain ⟨_, inside⟩ := List.forall_mem_cons.mp inside
      obtain ⟨behind, apart⟩ := List.pairwise_cons.mp apart
      rw [erasedIn_cons, List.find?_cons]
      cases named : c.kind.isNamed with
      | false =>
          rw [erased_token here named, Bool.false_or]
          exact ih laid inside apart
      | true =>
          have tail (h : erasedIn cs i = true) : (decide (c.stop ≤ i) && decide (i < t)) = true := by
            obtain ⟨d, mem, erased⟩ := erasedIn_iff.mp h
            have covers := Range.covers_iff.mp (covers_of_erased (laid d mem) erased)
            have := behind d mem
            have := inside d mem
            dsimp only [Node.range] at covers
            simp only [Bool.and_eq_true, decide_eq_true_eq]
            omega
          simp only [Option.any_some]
          cases rest : erasedIn cs i with
          | false => simp
          | true => simp only [tail rest, Bool.or_true]

variable {k : Kind} {r : Role} {s t : Nat}

/-- What a node erases that is neither a part that holds types alone nor the declaration of a type. -/
theorem erases_mk (part : isTypePart k = false) (declaration : isTypeDeclaration k = false)
    (types : (k == .importStatement && cs.any (·.kind == .token "type")) = false) :
    (Node.mk k r s t cs).erases i =
      ((k == .exportStatement && cs.any (isTypeDeclaration ·.kind)) && Range.covers ⟨s, t⟩ i ||
        isCast k && (cs.find? (·.kind.isNamed)).any (fun o => o.stop ≤ i && i < t) ||
        k == .nonNullExpression && (Node.mk k r s t cs).marks "!" i ||
        k == .optionalParameter && (Node.mk k r s t cs).marks "?" i) := by
  simp only [Node.erases, Node.isTypeOnly, Node.kind_mk, Node.children_mk, Node.range_mk, part,
    declaration, types, Bool.false_or, Bool.or_false, Node.namedChildren, List.head?_filter]
  rfl

theorem cast_covers (cast : isCast k = true) (laid : (Node.mk k r s t cs).WellLaid)
    (each : ∀ c ∈ cs, Collects none i c) :
    (operandRanges cs ++ castTail cs t).any (·.covers i) = (Node.mk k r s t cs).erased i := by
  have within : ∀ c ∈ cs, c.stop ≤ t :=
    fun c mem => (laid.inside _ (Node.self_mem_parts _) c mem).2
  have tail : (castTail cs t).any (·.covers i) =
      (cs.find? (·.kind.isNamed)).any fun operand => operand.stop ≤ i && i < t := by
    unfold castTail
    cases cs.find? (·.kind.isNamed) <;> simp [Range.covers]
  have own : (Node.mk k r s t cs).erases i =
      (cs.find? (·.kind.isNamed)).any fun operand => operand.stop ≤ i && i < t := by
    simp only [isCast, Bool.or_eq_true, beq_iff_eq] at cast
    rcases cast with rfl | rfl <;> rw [erases_mk rfl rfl rfl] <;>
      exact (Bool.or_false _).trans (Bool.or_false _)
  rw [List.any_append, operandRanges_covers each, tail, erased_mk, own, Bool.or_comm _ (erasedIn cs i)]
  exact (erasedIn_cast (fun c mem => laid.child mem) within
    (laid.apart _ (Node.self_mem_parts _))).symm

theorem present_covers (laid : (Node.mk .nonNullExpression r s t cs).WellLaid)
    (each : ∀ c ∈ cs, Collects none i c) :
    (tokenRanges "!" cs).any (·.covers i) = (Node.mk .nonNullExpression r s t cs).erased i := by
  rw [tokenRanges_covers each fun c mem => laid.child mem, erased_mk, erases_mk rfl rfl rfl,
    Bool.or_comm]
  exact congrArg (· || erasedIn cs i) (Bool.or_false _).symm

theorem optional_covers (laid : (Node.mk .optionalParameter r s t cs).WellLaid)
    (each : ∀ c ∈ cs, Collects none i c) :
    (tokenRanges "?" cs).any (·.covers i) = (Node.mk .optionalParameter r s t cs).erased i := by
  rw [tokenRanges_covers each fun c mem => laid.child mem, erased_mk, erases_mk rfl rfl rfl,
    Bool.or_comm]
  rfl

/-- Any other node leaves it to its children, an export being handed on to them. -/
theorem plain_covers (part : isTypePart k = false) (declaration : isTypeDeclaration k = false)
    (types : (k == .importStatement && cs.any (·.kind == .token "type")) = false)
    (cast : (isCast k && cs.any (·.kind.isNamed)) = false) (present : (k == .nonNullExpression) = false)
    (optional : (k == .optionalParameter) = false)
    (each : ∀ c ∈ cs, Collects (if k == .exportStatement then some ⟨s, t⟩ else none) i c) :
    (childRanges (if k == .exportStatement then some ⟨s, t⟩ else none) cs).any (·.covers i) =
      (Node.mk k r s t cs).erased i := by
  have noTail : (isCast k && (cs.find? (·.kind.isNamed)).any fun o => o.stop ≤ i && i < t) = false := by
    cases known : isCast k with
    | false => rfl
    | true =>
        have unnamed : ∀ c ∈ cs, ¬ c.kind.isNamed = true := by simpa [known] using cast
        simp [List.find?_eq_none.mpr unnamed]
  rw [childRanges_covers each, erased_mk, erases_mk part declaration types, noTail, present, optional,
    Bool.or_comm]
  cases k == .exportStatement <;> simp

/-- The stretches that are collected from a well laid tree cover what the nodes of the tree erase. -/
theorem typeRanges_covers {n : Node} (laid : n.WellLaid)
    (around : ∀ r ∈ outer, r.start ≤ n.start ∧ n.stop ≤ r.stop) : Collects outer i n := by
  revert laid outer
  refine Node.induct (P := fun n => ∀ {outer : Option Range}, n.WellLaid →
    (∀ r ∈ outer, r.start ≤ n.start ∧ n.stop ≤ r.stop) → Collects outer i n) ?_ n
  intro k r s t cs ih outer laid around
  have each : ∀ c ∈ cs, Collects none i c :=
    fun c mem => ih c mem (laid.child mem) (by simp)
  unfold Collects
  rw [typeRanges]
  split
  · -- a part that holds types alone
    rename_i part
    have other : isTypeDeclaration k = false := by
      simp only [isTypePart, Bool.or_eq_true, beq_iff_eq] at part
      rcases part with ((rfl | rfl) | rfl) | rfl <;> rfl
    rw [erased_whole laid (by simp [Node.isTypeOnly, part])]
    simp [other]
  · split
    · -- the declaration of a type
      rename_i declaration
      rw [erased_whole laid (by simp [Node.isTypeOnly, declaration])]
      simp only [Node.kind_mk, Node.range_mk, declaration, Bool.true_and, List.any_cons, List.any_nil,
        Bool.or_false]
      cases outer with
      | none => simp
      | some r =>
          obtain ⟨low, high⟩ := around r rfl
          refine (Bool.or_eq_right_iff_imp.mpr fun covers => ?_).symm
          rw [Range.covers_iff] at covers ⊢
          exact ⟨Nat.le_trans low covers.1, Nat.lt_of_lt_of_le covers.2 high⟩
    · rename_i part declaration
      simp only [Bool.not_eq_true] at part declaration
      rw [Node.kind_mk, declaration, Bool.false_and, Bool.or_false]
      split
      · -- an import of types
        rename_i types
        rw [erased_whole laid (by simp only [Node.isTypeOnly, Node.kind_mk, Node.children_mk, types,
          Bool.or_true])]
        simp
      · rename_i types
        split
        · rename_i cast
          exact cast_covers (Bool.and_eq_true_iff.mp cast).1 laid each
        · rename_i cast
          split
          · rename_i present
            obtain rfl := eq_of_beq present
            exact present_covers laid each
          · rename_i present
            split
            · rename_i optional
              obtain rfl := eq_of_beq optional
              exact optional_covers laid each
            · rename_i optional
              simp only [Bool.not_eq_true] at types cast present optional
              refine plain_covers part declaration types cast present optional fun c mem =>
                ih c mem (laid.child mem) fun r here => ?_
              split at here
              · cases here
                exact laid.inside _ (Node.self_mem_parts _) c mem
              · cases here

end Collecting

/-- Type erasure keeps every character of the text once and in order, except at the places that a node of
the tree erases. -/
theorem cut_typeRanges (cs : List Char) (root : Node) (laid : root.WellLaid) :
    cut cs (typeRanges none root) = keepFrom 0 (fun i => !root.erased i) cs := by
  rw [cut_eq]
  refine keepFrom_congr fun i _ => ?_
  have outside : ∀ r ∈ (none : Option Range), r.start ≤ root.start ∧ root.stop ≤ r.stop := by simp
  rw [(typeRanges_covers laid outside).alone]

/-- The export of a type, an optional parameter, the mark of a present value and a cast go; what stands
around them stays. -/
theorem cut_typeRanges_rows :
    let text := "export type K = A;\nlet at = (key?: K) => rows[key!] as Row;"
    let root := parse text true
    root.WellLaid ∧
      cut text.toList (typeRanges none root) = keepFrom 0 (fun i => !root.erased i) text.toList ∧
      String.ofList (keepFrom 0 (fun i => !root.erased i) text.toList) =
        "\nlet at = (key) => rows[key];" := by
  intro text root
  have laid : root.WellLaid := by
    have parts : ∀ n ∈ root.parts, n.start ≤ n.stop ∧
        (∀ c ∈ n.children, n.start ≤ c.start ∧ c.stop ≤ n.stop) ∧
        n.children.Pairwise (fun a b => a.stop ≤ b.start) ∧
        (n.kind.isNamed = false → n.children = []) := by decide +kernel
    exact ⟨fun n h => (parts n h).1, fun n h => (parts n h).2.1, fun n h => (parts n h).2.2.1,
      fun n h => (parts n h).2.2.2⟩
  exact ⟨laid, cut_typeRanges text.toList root laid, by decide +kernel⟩

end ReactMigration.TypeScript
