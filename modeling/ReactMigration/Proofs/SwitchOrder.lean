import Mathlib.Data.List.Nodup
import ReactMigration.Proofs.DocumentOrder

/-!
The children of a switch, in the order in which they are shown.

A switch shows its cases and its default in one chain of conditions, and its other children beside it.
`Slot` describes what stands where by the places of the children in the template, so that an order of
the markup can be compared with the order of the template.
-/

namespace ReactMigration

open ReactMigration.Template
open Converting (Gives)

/-! ### Places -/

/-- The places of the elements of a kind. -/
def places {α : Type} (kind : α → Bool) (items : List α) : List Nat :=
  (List.range items.length).filter fun i => items[i]?.any kind

section Places

variable {α : Type}

theorem mem_places {kind : α → Bool} {items : List α} {i : Nat} :
    i ∈ places kind items ↔ ∃ item, items[i]? = some item ∧ kind item = true := by
  simp only [places, List.mem_filter, List.mem_range, Option.any_eq_true]
  constructor
  · exact fun h => h.2
  · rintro ⟨item, found, of⟩
    exact ⟨(List.getElem?_eq_some_iff.mp found).1, item, found, of⟩

theorem lt_length_of_mem_places {kind : α → Bool} {items : List α} {i : Nat} (mem : i ∈ places kind items) :
    i < items.length :=
  List.mem_range.mp (List.mem_of_mem_filter mem)

theorem places_nodup (kind : α → Bool) (items : List α) : (places kind items).Nodup :=
  List.nodup_range.filter _

/-- The elements of a kind stand at their places. -/
theorem filterMap_places (kind : α → Bool) (items : List α) :
    (places kind items).filterMap (items[·]?) = items.filter kind := by
  have all : (List.range items.length).filterMap (items[·]?) = items := by
    induction items with
    | nil => rfl
    | cons item items ih => simp [List.range_succ_eq_map, List.filterMap_map, ih]
  have one (i : Nat) : (if items[i]?.any kind then items[i]? else none) = items[i]?.filter kind := by
    cases items[i]? with
    | none => rfl
    | some item => simp [Option.filter]
  conv_rhs => rw [← all]
  rw [places, List.filterMap_filter, List.filter_filterMap]
  simp only [one]

theorem places_congr {β : Type} {R : α → β → Prop} {kind : α → Bool} {kind' : β → Bool}
    (same : ∀ a b, R a b → kind a = kind' b) {as : List α} {bs : List β} (each : List.Forall₂ R as bs) :
    places kind as = places kind' bs := by
  have one (i : Nat) : as[i]?.any kind = bs[i]?.any kind' := by
    induction each generalizing i with
    | nil => rfl
    | cons related _ ih =>
        cases i with
        | zero => exact same _ _ related
        | succ i => exact ih i
  rw [places, places, each.length_eq]
  exact List.filter_congr fun i _ => one i

end Places

/-! ### Items -/

/-- What a child of a switch comes to: a case with its condition, a default, or any other child, which
may show nothing. -/
inductive SwitchItem where
  | case (condition : String) (region : Markup)
  | fallback (region : Markup)
  | other (shown : Option Markup)
  deriving Inhabited

namespace SwitchItem

def isCase : SwitchItem → Bool
  | .case .. => true
  | _ => false

def isFallback : SwitchItem → Bool
  | .fallback _ => true
  | _ => false

/-- Whether the item stands beside the chain. -/
def isSibling : SwitchItem → Bool
  | .other (some _) => true
  | _ => false

/-- Whether the item belongs into the chain. -/
def isPart (item : SwitchItem) : Bool :=
  item.isCase || item.isFallback

def case? : SwitchItem → Option (String × Markup)
  | .case condition region => some (condition, region)
  | _ => none

def other? : SwitchItem → Option Markup
  | .other shown => shown
  | _ => none

/-- The last default. -/
def lastFallback : List SwitchItem → Option Markup
  | [] => none
  | .fallback region :: rest => (lastFallback rest).orElse fun _ => some region
  | _ :: rest => lastFallback rest

/-- Cases in order; the first default, or other child, ends the chain. -/
def chain : List SwitchItem → Option Markup
  | [] => none
  | .case condition region :: rest => some (.conditional condition region (chain rest))
  | .fallback region :: _ => some region
  | .other shown :: _ => shown

theorem chain_append (tail : List SwitchItem) : ∀ items : List SwitchItem,
    chain (items.filter isCase ++ tail) =
      (items.filterMap case?).foldr (fun entry rest => some (.conditional entry.1 entry.2 rest)) (chain tail)
  | [] => rfl
  | .case condition region :: items => by
      rw [List.filter_cons_of_pos (by rfl), List.filterMap_cons_some (f := case?) rfl, List.cons_append, chain,
        chain_append tail items, List.foldr_cons]
  | .fallback region :: items => by
      rw [List.filter_cons_of_neg Bool.false_ne_true, List.filterMap_cons_none rfl, chain_append tail items]
  | .other shown :: items => by
      rw [List.filter_cons_of_neg Bool.false_ne_true, List.filterMap_cons_none rfl, chain_append tail items]

/-- The last default ends the chain with what it shows. -/
theorem chain_getLast? : ∀ items : List SwitchItem,
    chain (items.filter isFallback).getLast?.toList = lastFallback items
  | [] => rfl
  | .case condition region :: items => by
      rw [List.filter_cons_of_neg Bool.false_ne_true, lastFallback, chain_getLast? items]
      all_goals nofun
  | .other shown :: items => by
      rw [List.filter_cons_of_neg Bool.false_ne_true, lastFallback, chain_getLast? items]
      all_goals nofun
  | .fallback region :: items => by
      rw [List.filter_cons_of_pos (by rfl), lastFallback, ← chain_getLast? items, List.getLast?_cons]
      cases last : (items.filter isFallback).getLast? with
      | none => rfl
      | some item =>
          have kind := List.of_mem_filter (List.mem_of_getLast? last)
          cases item with
          | fallback region => rfl
          | case condition region => cases kind
          | other shown => cases kind

end SwitchItem


/-- The parts of a switch as its children leave them. -/
def SwitchParts.ofItems (items : List SwitchItem) : SwitchParts where
  cases := items.filterMap SwitchItem.case?
  fallback := SwitchItem.lastFallback items
  others := items.filterMap SwitchItem.other?

section Conversion

variable {env : TemplateEnv} {content : ContentOf} {s : Scope} {switch : String}

/-- Whether the node is a case of the switch around it. -/
def Template.Node.isSwitchCase : Node → Bool
  | .structural name .. => name == "ngSwitchCase"
  | _ => false

/-- Whether the node is a default of the switch around it. -/
def Template.Node.isSwitchDefault : Node → Bool
  | .structural name .. => name == "ngSwitchDefault"
  | _ => false

/-- Whether the node is a case or a default of the switch around it. -/
def Template.Node.isSwitchPart (n : Node) : Bool :=
  n.isSwitchCase || n.isSwitchDefault

/-- What a child of a switch over some code becomes. -/
inductive Becomes (env : TemplateEnv) (content : ContentOf) (s : Scope) (switch : String) :
    Node → SwitchItem → Prop
  | case {source value : String} {clauses : Clauses} {child : Node} {p : Position}
      {directive : Option String} {region : Option Markup}
      (compared : Gives (s.boundAt env (parseBoundValue clauses.expression (some p)) p) value)
      (shown : Gives (convertNode env content (s.child [] false) true child) region) :
      Becomes env content s switch (.structural "ngSwitchCase" source clauses child p directive)
        (.case s!"{switch} === {value}" (region.getD .nothing))
  | fallback {source : String} {clauses : Clauses} {child : Node} {p : Position}
      {directive : Option String} {region : Option Markup}
      (shown : Gives (convertNode env content (s.child [] false) true child) region) :
      Becomes env content s switch (.structural "ngSwitchDefault" source clauses child p directive)
        (.fallback (region.getD .nothing))
  | other {n : Node} {shown : Option Markup} (plain : n.isSwitchPart = false)
      (given : Gives (convertNode env content s false n) shown) :
      Becomes env content s switch n (.other shown)

/-- The template tells the kind of an item. -/
theorem Becomes.kind {n : Node} {item : SwitchItem} (h : Becomes env content s switch n item) :
    n.isSwitchCase = item.isCase ∧ n.isSwitchDefault = item.isFallback := by
  cases h with
  | case => exact ⟨rfl, rfl⟩
  | fallback => exact ⟨rfl, rfl⟩
  | other plain => exact Bool.or_eq_false_iff.mp plain

theorem Becomes.part {n : Node} {item : SwitchItem} (h : Becomes env content s switch n item) :
    n.isSwitchPart = item.isPart := by
  rw [Template.Node.isSwitchPart, SwitchItem.isPart, h.kind.1, h.kind.2]

/-- The parts of a switch are those of its children, one by one. -/
theorem convertSwitch_becomes : ∀ {ns : List Node} {w : SwitchParts},
    Gives (convertSwitch env content s switch ns) w →
      ∃ items, List.Forall₂ (Becomes env content s switch) ns items ∧ w = .ofItems items
  | [], w, given => by
      unfold convertSwitch at given
      cases given.pure
      exact ⟨[], .nil, rfl⟩
  | n :: ns, w, given => by
      unfold convertSwitch at given
      split at given
      · rename_i h
        cases h
      · rename_i h
        cases h
        obtain ⟨value, compared, given⟩ := given.bind
        obtain ⟨region, shown, given⟩ := given.bind
        obtain ⟨rest, more, given⟩ := given.bind
        obtain ⟨items, each, rfl⟩ := convertSwitch_becomes more
        cases given.pure
        exact ⟨_, .cons (.case compared shown) each, rfl⟩
      · rename_i h
        cases h
        obtain ⟨region, shown, given⟩ := given.bind
        obtain ⟨rest, more, given⟩ := given.bind
        obtain ⟨items, each, rfl⟩ := convertSwitch_becomes more
        cases given.pure
        exact ⟨_, .cons (.fallback shown) each, rfl⟩
      · rename_i noCase noFallback h
        cases h
        obtain ⟨first, shown, given⟩ := given.bind
        obtain ⟨rest, more, given⟩ := given.bind
        obtain ⟨items, each, rfl⟩ := convertSwitch_becomes more
        cases given.pure
        have plain : n.isSwitchPart = false := by
          cases n with
          | structural name source clauses child p directive =>
              simp only [Template.Node.isSwitchPart, Template.Node.isSwitchCase,
                Template.Node.isSwitchDefault, Bool.or_eq_false_iff, beq_eq_false_iff_ne]
              constructor
              · rintro rfl
                exact noCase _ _ _ _ _ rfl
              · rintro rfl
                exact noFallback _ _ _ _ _ rfl
          | _ => rfl
        refine ⟨_, .cons (.other plain shown) each, ?_⟩
        cases first <;> rfl

end Conversion

/-! ### Slots -/

/-- What stands among the children of a switch, by places in the template. -/
inductive Slot where
  | sibling (place : Nat)
  | chain (places : List Nat)
  deriving Repr, DecidableEq

namespace Slot

def places : Slot → List Nat
  | .sibling i => [i]
  | .chain is => is

/-- The markup of a slot. -/
def markup? (items : List SwitchItem) : Slot → Option Markup
  | .sibling i => SwitchItem.chain (items[i]?.toList)
  | .chain is => SwitchItem.chain (is.filterMap (items[·]?))

end Slot

/-- The places of the cases and of the last default. -/
def chainPlaces (items : List SwitchItem) : List Nat :=
  places SwitchItem.isCase items ++ (places SwitchItem.isFallback items).getLast?.toList

/-- Where a switch shows its children: the siblings, then the chain if it has parts. -/
def switchSlots (items : List SwitchItem) : List Slot :=
  (places SwitchItem.isSibling items).map .sibling ++
    if (chainPlaces items).isEmpty then [] else [.chain (chainPlaces items)]

/-- A switch is laid out as its slots are. -/
theorem switchSlots_markup (items : List SwitchItem) :
    (switchSlots items).filterMap (Slot.markup? items) = (SwitchParts.ofItems items).markup := by
  have siblings : ((places SwitchItem.isSibling items).map Slot.sibling).filterMap (Slot.markup? items) =
      items.filterMap SwitchItem.other? := by
    have one (i : Nat) : Slot.markup? items (.sibling i) = items[i]?.bind fun item => SwitchItem.chain [item] := by
      rw [Slot.markup?]
      cases items[i]? <;> rfl
    have each (item : SwitchItem) :
        (if item.isSibling then SwitchItem.chain [item] else none) = item.other? := by
      cases item with
      | other shown => cases shown <;> rfl
      | _ => rfl
    rw [List.filterMap_map]
    simp only [Function.comp_def, one]
    rw [← List.filterMap_filterMap, filterMap_places, List.filterMap_filter]
    simp only [each]
  have parts (is : List Nat) : (if is.isEmpty then [] else [Slot.chain is]).filterMap (Slot.markup? items) =
      (SwitchItem.chain (is.filterMap (items[·]?))).toList := by
    cases is with
    | nil => rfl
    | cons i is =>
        rw [if_neg (by simp), List.filterMap_cons, Slot.markup?]
        split
        · rename_i none
          rw [none]
          rfl
        · rename_i m some
          rw [some]
          rfl
  have last : (places SwitchItem.isFallback items).getLast?.toList.filterMap (items[·]?) =
      (items.filter SwitchItem.isFallback).getLast?.toList := by
    rw [← filterMap_places]
    obtain none | ⟨front, i, whole⟩ := List.eq_nil_or_concat' (places SwitchItem.isFallback items)
    · rw [none]
      rfl
    · have final : i ∈ places SwitchItem.isFallback items :=
        whole ▸ List.mem_append_right front (List.mem_singleton_self i)
      obtain ⟨item, found, -⟩ := mem_places.mp final
      simp [whole, List.filterMap_append, found]
  rw [switchSlots, List.filterMap_append, siblings, parts, chainPlaces, List.filterMap_append,
    filterMap_places, last, SwitchItem.chain_append, SwitchItem.chain_getLast?]
  rfl

/-! ### Orders -/

/-- Everything is shown once, and a sibling that stands before (behind) all cases and defaults is shown
before (behind) the chain. -/
structure TemplateOrder (items : List SwitchItem) (slots : List Slot) : Prop where
  once : ∀ i, (i ∈ places SwitchItem.isSibling items ∨ i ∈ places SwitchItem.isPart items) →
    (slots.flatMap Slot.places).count i = 1
  before : ∀ i parts, Slot.sibling i ∈ slots → Slot.chain parts ∈ slots →
    (∀ j ∈ places SwitchItem.isPart items, i < j) → [.sibling i, .chain parts].Sublist slots
  behind : ∀ i parts, Slot.sibling i ∈ slots → Slot.chain parts ∈ slots →
    (∀ j ∈ places SwitchItem.isPart items, j < i) → [.chain parts, .sibling i].Sublist slots

section Orders

variable {items : List SwitchItem} {i : Nat} {parts : List Nat}

theorem disjoint_places {kind kind' : SwitchItem → Bool}
    (apart : ∀ item, kind item = true → kind' item = true → False) :
    (places kind items).Disjoint (places kind' items) := by
  intro i mem mem'
  obtain ⟨item, found, of⟩ := mem_places.mp mem
  obtain ⟨item', found', of'⟩ := mem_places.mp mem'
  obtain rfl := Option.some.inj (found.symm.trans found')
  exact apart item of of'

theorem mem_places_isPart : i ∈ places SwitchItem.isPart items ↔
    i ∈ places SwitchItem.isCase items ∨ i ∈ places SwitchItem.isFallback items := by
  simp only [mem_places, SwitchItem.isPart, Bool.or_eq_true, and_or_left, exists_or]

theorem sibling_mem_switchSlots :
    .sibling i ∈ switchSlots items ↔ i ∈ places SwitchItem.isSibling items := by
  unfold switchSlots
  split <;> simp

theorem chain_mem_switchSlots :
    .chain parts ∈ switchSlots items ↔ chainPlaces items ≠ [] ∧ parts = chainPlaces items := by
  unfold switchSlots
  split
  · rename_i empty
    simp [List.isEmpty_iff.mp empty]
  · rename_i full
    simp [List.isEmpty_iff.not.mp full]

/-- There is a chain for every part. -/
theorem chainPlaces_ne_nil (mem : i ∈ places SwitchItem.isPart items) : chainPlaces items ≠ [] := by
  intro none
  obtain ⟨noCase, noFallback⟩ := List.append_eq_nil_iff.mp none
  rcases mem_places_isPart.mp mem with mem | mem
  · simp [noCase] at mem
  · rw [Option.toList_eq_nil_iff, List.getLast?_eq_none_iff] at noFallback
    simp [noFallback] at mem

theorem chainPlaces_subset : chainPlaces items ⊆ places SwitchItem.isPart items := fun _ mem =>
  mem_places_isPart.mpr <|
    (List.mem_append.mp mem).imp id fun last => List.mem_of_getLast? (Option.mem_toList.mp last)

theorem disjoint_isCase_isFallback :
    (places SwitchItem.isCase items).Disjoint (places SwitchItem.isFallback items) := by
  refine disjoint_places fun item isCase isFallback => ?_
  cases item with
  | case condition region => cases isFallback
  | _ => cases isCase

/-- A sibling is no part of the chain. -/
theorem disjoint_isSibling_isPart :
    (places SwitchItem.isSibling items).Disjoint (places SwitchItem.isPart items) := by
  refine disjoint_places fun item beside within => ?_
  cases item with
  | other shown => cases within
  | _ => cases beside

theorem switchSlots_places :
    (switchSlots items).flatMap Slot.places = places SwitchItem.isSibling items ++ chainPlaces items := by
  have siblings (is : List Nat) : (is.map Slot.sibling).flatMap Slot.places = is := by
    induction is with
    | nil => rfl
    | cons i is ih => simp [Slot.places, ih]
  unfold switchSlots
  split
  · rename_i empty
    simp [siblings, List.isEmpty_iff.mp empty]
  · simp [siblings, Slot.places]

/-- Nothing is shown twice. -/
theorem switchSlots_nodup (items : List SwitchItem) :
    ((switchSlots items).flatMap Slot.places).Nodup := by
  have chain : (chainPlaces items).Nodup :=
    List.Nodup.append (places_nodup _ _) (Option.toList_nodup _) fun i mem last =>
      disjoint_isCase_isFallback mem (List.mem_of_getLast? (Option.mem_toList.mp last))
  rw [switchSlots_places]
  exact List.Nodup.append (places_nodup _ _) chain fun i mem mem' =>
    disjoint_isSibling_isPart mem (chainPlaces_subset mem')

/-- All defaults are shown if there is one at most. -/
theorem fallbacks_shown_iff :
    (∀ i ∈ places SwitchItem.isFallback items, i ∈ (places SwitchItem.isFallback items).getLast?) ↔
      (places SwitchItem.isFallback items).length ≤ 1 := by
  have distinct := places_nodup SwitchItem.isFallback items
  constructor
  · intro shown
    match h : places SwitchItem.isFallback items with
    | [] => simp
    | [i] => simp
    | i :: j :: is =>
        rw [h] at shown distinct
        have first := shown i List.mem_cons_self
        have second := shown j (by simp)
        obtain rfl : i = j := Option.some.inj (first.symm.trans second)
        simp at distinct
  · intro few i mem
    obtain ⟨front, back, whole⟩ := List.append_of_mem mem
    rw [whole] at few ⊢
    rw [List.length_append, List.length_cons] at few
    obtain rfl : front = [] := List.length_eq_zero_iff.mp (by omega)
    obtain rfl : back = [] := List.length_eq_zero_iff.mp (by omega)
    rfl

/-- What stands last is behind everything else. -/
theorem not_sublist_of_last {slots : List Slot} {slot last : Slot} (new : last ∉ slots) :
    ¬ [last, slot].Sublist (slots ++ [last]) := by
  intro sub
  obtain ⟨front, back, whole, inFront, inBack⟩ := List.sublist_append_iff.mp sub
  cases front with
  | nil =>
      have short := inBack.length_le
      rw [← List.nil_append back, ← whole] at short
      simp at short
  | cons x front =>
      obtain ⟨rfl, -⟩ := List.cons.inj whole
      exact new (inFront.subset List.mem_cons_self)

/-- A switch keeps the order unless it has several defaults, of which it shows the last, or a child
behind all cases and defaults, which it shows before them. -/
theorem templateOrder_switchSlots (items : List SwitchItem) :
    TemplateOrder items (switchSlots items) ↔
      (places SwitchItem.isFallback items).length ≤ 1 ∧
        ∀ i ∈ places SwitchItem.isSibling items, ∀ j ∈ places SwitchItem.isPart items,
          ∃ k ∈ places SwitchItem.isPart items, i < k := by
  have once (i : Nat) : ((switchSlots items).flatMap Slot.places).count i = 1 ↔
      i ∈ places SwitchItem.isSibling items ∨ i ∈ places SwitchItem.isCase items ∨
        i ∈ (places SwitchItem.isFallback items).getLast? := by
    have mem : i ∈ (switchSlots items).flatMap Slot.places ↔
        i ∈ places SwitchItem.isSibling items ∨ i ∈ places SwitchItem.isCase items ∨
          i ∈ (places SwitchItem.isFallback items).getLast? := by
      rw [switchSlots_places, chainPlaces, List.mem_append, List.mem_append, Option.mem_toList,
        Option.mem_def]
    rw [← mem]
    exact ⟨fun one => List.count_pos_iff.mp (by omega),
      List.count_eq_one_of_mem (switchSlots_nodup items)⟩
  constructor
  · intro order
    constructor
    · refine fallbacks_shown_iff.mp fun i mem => ?_
      have shown := (once i).mp (order.once i (.inr (mem_places_isPart.mpr (.inr mem))))
      exact shown.elim (fun beside => (disjoint_isSibling_isPart beside (mem_places_isPart.mpr (.inr mem))).elim)
        fun within => within.elim (fun isCase => (disjoint_isCase_isFallback isCase mem).elim) id
    · intro i beside j part
      by_contra none
      have behind : ∀ k ∈ places SwitchItem.isPart items, k < i := fun k mem =>
        Nat.lt_of_le_of_ne (Nat.not_lt.mp fun less => none ⟨k, mem, less⟩)
          fun same => disjoint_isSibling_isPart beside (same ▸ mem)
      have full := chainPlaces_ne_nil part
      have sub := order.behind i (chainPlaces items) (sibling_mem_switchSlots.mpr beside)
        (chain_mem_switchSlots.mpr ⟨full, rfl⟩) behind
      rw [switchSlots, if_neg (List.isEmpty_iff.not.mpr full)] at sub
      exact not_sublist_of_last (by simp) sub
  · rintro ⟨few, mixed⟩
    refine ⟨fun i shown => (once i).mpr ?_, fun i parts beside chain _ => ?_,
      fun i parts beside chain behind => ?_⟩
    · refine shown.imp id fun part => (mem_places_isPart.mp part).imp id ?_
      exact fallbacks_shown_iff.mpr few i
    · rw [sibling_mem_switchSlots] at beside
      obtain ⟨full, rfl⟩ := chain_mem_switchSlots.mp chain
      rw [switchSlots, if_neg (List.isEmpty_iff.not.mpr full)]
      exact List.Sublist.append (List.singleton_sublist.mpr (List.mem_map_of_mem beside)) (List.Sublist.refl _)
    · obtain ⟨full, -⟩ := chain_mem_switchSlots.mp chain
      obtain ⟨j, mem⟩ := List.exists_mem_of_ne_nil _ full
      obtain ⟨k, part, less⟩ := mixed i (sibling_mem_switchSlots.mp beside) j (chainPlaces_subset mem)
      exact absurd (behind k part) (Nat.lt_asymm less)

end Orders

/-! ### Switches -/

section Switches

variable {env : TemplateEnv} {s : Scope}

/-- A binding among the attributes gives the value that the element switches over. -/
def SwitchesOver (env : TemplateEnv) (s : Scope) (attributes : List Attribute) (switch : String) : Prop :=
  ∃ expression value p twoWay, Attribute.property "ngSwitch" expression value p twoWay ∈ attributes ∧
    Gives (s.boundAt env value p) switch

theorem SwitchesOver.mono {attributes more : List Attribute} {switch : String}
    (h : SwitchesOver env s attributes switch) (sub : attributes ⊆ more) : SwitchesOver env s more switch := by
  obtain ⟨expression, value, p, twoWay, mem, given⟩ := h
  exact ⟨expression, value, p, twoWay, sub mem, given⟩

theorem addAttribute_switches {isComponent : Bool} {formValue : Option String} {consumed : List String}
    {e e' : ElementParts} {attr : Attribute} (own : "ngSwitch" ∉ consumed) (switches : attr.isSwitch = true)
    (given : Gives (addAttribute env s isComponent formValue consumed e attr) e') :
    ∃ switch, e'.switch = some switch ∧ SwitchesOver env s [attr] switch := by
  cases attr with
  | property name expression value p twoWay =>
      obtain rfl : name = "ngSwitch" := eq_of_beq switches
      unfold addAttribute at given
      rw [if_neg (by simpa [takenName?] using own)] at given
      obtain ⟨code, made, given⟩ := given.bind
      cases given.pure
      exact ⟨code, rfl, expression, value, p, twoWay, List.mem_singleton_self _, made⟩
  | _ => cases switches

theorem addAttributes_switches {isComponent : Bool} {formValue : Option String} {consumed : List String}
    (own : "ngSwitch" ∉ consumed) {attributes : List Attribute} {e e' : ElementParts}
    (switches : attributes.any (·.isSwitch) = true)
    (given : Gives (attributes.foldlM (addAttribute env s isComponent formValue consumed) e) e') :
    ∃ switch, e'.switch = some switch ∧ SwitchesOver env s attributes switch := by
  induction attributes generalizing e with
  | nil => cases switches
  | cons attr attributes ih =>
      rw [List.foldlM_cons] at given
      obtain ⟨first, one, given⟩ := given.bind
      cases later : attributes.any (·.isSwitch) with
      | true =>
          obtain ⟨switch, same, subject⟩ := ih later given
          exact ⟨switch, same, subject.mono (List.subset_cons_self attr attributes)⟩
      | false =>
          rw [List.any_cons, later, Bool.or_false] at switches
          obtain ⟨switch, same, subject⟩ := addAttribute_switches own switches one
          rw [← addAttributes_switch later given] at same
          exact ⟨switch, same, subject.mono (by simp)⟩

/-- An element is a switch if a binding says so that no directive takes. -/
theorem startTag_switches {tag : String} {attributes : List Attribute} {component : Option String}
    {start : StartTag} {uses : List DirectiveUse}
    (claims : directiveUses env.index 0 [] attributes = .ok uses)
    (own : "ngSwitch" ∉ uses.flatMap (·.names)) (switches : attributes.any (·.isSwitch) = true)
    (given : Gives (startTag env s tag attributes component) start) :
    ∃ switch, start.switch = some switch ∧ SwitchesOver env s attributes switch := by
  unfold startTag at given
  obtain ⟨_, _, given⟩ := given.bind
  obtain ⟨uses', claims', given⟩ := given.bind
  obtain rfl : uses = uses' := Except.ok.inj (claims.symm.trans claims'.lift)
  obtain ⟨e, gathered, given⟩ := given.bind
  obtain ⟨_, _, given⟩ := given.bind
  obtain ⟨_, _, given⟩ := given.bind
  obtain ⟨_, _, given⟩ := given.bind
  cases given.pure
  exact addAttributes_switches own switches gathered

/-- An element that is a switch holds the parts that its children give. -/
theorem convertNode_parts {content : ContentOf} {region : Bool} {tag : String}
    {attributes : List Attribute} {children : List Node} {p : Position} {selfClosing : Bool}
    {component : Option String} {m : Option Markup} {uses : List DirectiveUse}
    (claims : directiveUses env.index 0 [] attributes = .ok uses)
    (own : "ngSwitch" ∉ uses.flatMap (·.names)) (switches : attributes.any (·.isSwitch) = true)
    (given : Gives (convertNode env content s region
      (.element tag attributes children p selfClosing component)) m) :
    ∃ start attrs switch w, Gives (startTag env s tag attributes component) start ∧
      SwitchesOver env s attributes switch ∧ Gives (convertSwitch env content s switch children) w ∧
      m = some (.element start.tag attrs w.markup) := by
  unfold convertNode at given
  obtain ⟨start, starts, given⟩ := given.bind
  obtain ⟨switch, switched, subject⟩ := startTag_switches claims own switches starts
  rw [switched] at given
  obtain ⟨w, parts, given⟩ := given.bind
  obtain ⟨kids, laid, given⟩ := given.bind
  obtain rfl := laid.pure
  obtain ⟨attrs, _, given⟩ := given.bind
  exact ⟨start, attrs, switch, w, starts, subject, parts, given.pure⟩

/-- The children of a switch: every child becomes an item, and the items are laid out in slots, in the
order of the template unless there are several defaults or a child behind all cases and defaults. -/
theorem convertNode_switch {content : ContentOf} {region : Bool} {tag : String}
    {attributes : List Attribute} {children : List Node} {p : Position} {selfClosing : Bool}
    {component : Option String} {m : Option Markup} {uses : List DirectiveUse}
    (claims : directiveUses env.index 0 [] attributes = .ok uses)
    (own : "ngSwitch" ∉ uses.flatMap (·.names)) (switches : attributes.any (·.isSwitch) = true)
    (given : Gives (convertNode env content s region
      (.element tag attributes children p selfClosing component)) m) :
    ∃ start attrs switch items, Gives (startTag env s tag attributes component) start ∧
      SwitchesOver env s attributes switch ∧
      List.Forall₂ (Becomes env content s switch) children items ∧
      m = some (.element start.tag attrs ((switchSlots items).filterMap (Slot.markup? items))) ∧
      (TemplateOrder items (switchSlots items) ↔
        (places Node.isSwitchDefault children).length ≤ 1 ∧
          ∀ i ∈ places SwitchItem.isSibling items, ∀ j ∈ places Node.isSwitchPart children,
            ∃ k ∈ places Node.isSwitchPart children, i < k) := by
  obtain ⟨start, attrs, switch, w, starts, subject, parts, rfl⟩ := convertNode_parts claims own switches given
  obtain ⟨items, each, rfl⟩ := convertSwitch_becomes parts
  refine ⟨start, attrs, switch, items, starts, subject, each, by rw [switchSlots_markup], ?_⟩
  rw [places_congr (fun _ _ h => h.kind.2) each, places_congr (fun _ _ h => h.part) each]
  exact templateOrder_switchSlots items

end Switches

/-- A switch over `k`. -/
def switchOverK (children : List Node) : Node :=
  .element "div" [.property "ngSwitch" "k" (.text "k") {} false] children {} false none

/-- A case of a switch. -/
def caseOf (value : String) : Node :=
  .structural "ngSwitchCase" value { expression := value }
    (.element "p" [] [.text value {}] {} false none) {} none

/-- A heading before two cases. -/
def headedCases : List Node :=
  [.element "b" [] [] {} false none, caseOf "1", caseOf "2"]

theorem convertNode_switch_headedCases :
    directiveUses rowsEnv.index 0 [] [.property "ngSwitch" "k" (.text "k") {} false] = .ok [] ∧
      ∃ m, Gives (convertNode rowsEnv (templateContent rowsEnv 1) {} false (switchOverK headedCases)) m ∧
        ∃ switch items, List.Forall₂ (Becomes rowsEnv (templateContent rowsEnv 1) {} switch) headedCases items ∧
          TemplateOrder items (switchSlots items) := by
  have claims : directiveUses rowsEnv.index 0 [] [.property "ngSwitch" "k" (.text "k") {} false] = .ok [] := rfl
  have converted : (convertNode rowsEnv (templateContent rowsEnv 1) {} false
      (switchOverK headedCases)).value?.isSome = true := by
    decide +kernel
  obtain ⟨m, found⟩ := Option.isSome_iff_exists.mp converted
  have made := Converting.gives_of_value? found
  obtain ⟨_, _, switch, items, _, _, each, _, order⟩ := convertNode_switch claims nofun rfl made
  have apart (i : Nat) (beside : i ∈ places SwitchItem.isSibling items) :
      i ∉ places Node.isSwitchPart headedCases := by
    rw [places_congr (fun _ _ h => h.part) each]
    exact disjoint_isSibling_isPart beside
  refine ⟨claims, m, made, switch, items, each, order.mpr ⟨by decide, fun i beside _ _ => ⟨2, by decide, ?_⟩⟩⟩
  have short : i < headedCases.length := each.length_eq ▸ lt_length_of_mem_places beside
  have last : i ≠ 2 := by
    rintro rfl
    exact apart 2 beside (by decide)
  exact Nat.lt_of_le_of_ne (Nat.le_of_lt_succ short) last

/-- A child behind the only case. -/
def lateSibling : List Node :=
  [caseOf "1", .element "b" [] [] {} false none]

/-- What stands behind the case in the template stands before it in the markup. -/
theorem order_lost_lateSibling :
    (∃ m, Gives (convertNode rowsEnv (templateContent rowsEnv 1) {} false (switchOverK lateSibling)) (some m) ∧
      Printing.render m = ["<div>", "  <b />", "  \x7bk === 1 ? <p>1</p> : null\x7d", "</div>"]) ∧
    ∃ items, List.Forall₂ (Becomes rowsEnv (templateContent rowsEnv 1) {} "k") lateSibling items ∧
      ¬ TemplateOrder items (switchSlots items) := by
  have value : Gives (Scope.boundAt rowsEnv {} (parseBoundValue "1" (some {})) {}) "1" :=
    Converting.gives_of_value? (by decide +kernel)
  obtain ⟨one, shown, -⟩ : ∃ m, Gives (convertNode rowsEnv (templateContent rowsEnv 1)
      (Scope.child {} [] false) true (.element "p" [] [.text "1" {}] {} false none)) (some m) ∧
      Printing.render m = ["<p>1</p>"] :=
    rendered_of_value? (by decide +kernel)
  obtain ⟨after, behind, -⟩ : ∃ m, Gives (convertNode rowsEnv (templateContent rowsEnv 1) {} false
      (.element "b" [] [] {} false none)) (some m) ∧ Printing.render m = ["<b />"] :=
    rendered_of_value? (by decide +kernel)
  refine ⟨rendered_of_value? (by decide +kernel), _,
    .cons (.case value shown) (.cons (.other rfl behind) .nil), fun order => ?_⟩
  obtain ⟨k, part, less⟩ := ((templateOrder_switchSlots _).mp order).2 1 (mem_places.mpr ⟨_, rfl, rfl⟩) 0
    (mem_places.mpr ⟨_, rfl, rfl⟩)
  exact absurd (lt_length_of_mem_places part) (Nat.not_lt.mpr less)

end ReactMigration
