import ReactMigration.Proofs.Cutting
import ReactMigration.Proofs.LevelWrites
import ReactMigration.Proofs.Literals
import ReactMigration.Proofs.Sweeping

/-!
Passes that exchange stretches of code.

What a pass looks for is a text without quotes.  If no literal contains that text, every match stands in code, and
what is written in its place has the same effect on brackets and no new literals of a kind that is excluded.  So
whatever such exchanges keep of a text, the pass keeps.
-/

namespace ReactMigration.Recast

open ReactMigration.Text
open ReactMigration.Text.Pattern (Captures Sweeps isName)
open ReactMigration.Script
open Recasting (Gives)

variable {p q : Pattern} {c d : Cursor} {m : Match} {x y t u v s s' s'' : List Char} {name : String}
variable {P I : List Char → Prop}

/-! ### Quiet patterns -/

theorem quiet_of_plain (plain : ∀ a ∈ x, isPlain a = true) : Quiet x := by
  intro a mem
  obtain ⟨quote, -, -, hides⟩ := isPlain_iff.mp (plain a mem)
  exact ⟨quote, hides⟩

theorem Quiet.append (hx : Quiet x) (hy : Quiet y) : Quiet (x ++ y) := by
  intro a mem
  exact (List.mem_append.mp mem).elim (hx a) (hy a)

theorem TakesOnly.mono {good good' : List Char → Prop} (only : TakesOnly p good) (imp : ∀ x, good x → good' x) :
    TakesOnly p good' :=
  fun _ _ _ _ _ taken spans => imp _ (only taken spans)

theorem takesOnly_many {r : Char → Bool} {least : Nat} {greedy : Bool} :
    TakesOnly (.many r least greedy) fun x => ∀ a ∈ x, r a = true := by
  rintro c g d h x ⟨⟨y, spans', all, -⟩, -⟩ spans
  rwa [spans_chars spans spans']

theorem takesOnly_oneOf {l : List String} : TakesOnly (.oneOf l) fun x => ∃ s ∈ l, x = s.toList := by
  intro c g d h x taken spans
  obtain ⟨⟨s, mem, spans'⟩, -⟩ := Pattern.oneOf_takes.mp taken
  exact ⟨s, mem, spans_chars spans spans'⟩

theorem takesOnly_ahead (wanted : Bool) : TakesOnly (.ahead wanted p) (· = []) := by
  intro c g d h x taken spans
  cases wanted with
  | true =>
      obtain ⟨rfl, -⟩ := taken
      exact spans_chars spans (.refl _)
  | false =>
      obtain ⟨rfl, -⟩ := taken
      exact spans_chars spans (.refl _)

theorem takesOnly_notAfter {r : Char → Bool} : TakesOnly (.notAfter r) (· = []) := by
  rintro c g d h x ⟨rfl, -⟩ spans
  exact spans_chars spans (.refl _)

theorem takesOnly_opt {good : List Char → Prop} (only : TakesOnly p good) (none : good []) :
    TakesOnly (.opt p) good := by
  intro c g d h x taken spans
  rcases Pattern.opt_takes.mp taken with taken | ⟨rfl, -⟩
  · exact only taken spans
  · rwa [spans_chars spans (.refl _)]

theorem takesOnly_group {good : List Char → Prop} (only : TakesOnly p good) (i : Nat) :
    TakesOnly (.group i p) good := by
  rintro c g d h x ⟨g', taken, -⟩ spans
  exact only taken spans

/-- What the pattern takes is quiet and leads from some awaited closers to others. -/
def Passes (s : List Char) (p : Pattern) (s' : List Char) : Prop :=
  TakesOnly p fun x => Quiet x ∧ Turns s x s'

theorem passes_plain (only : TakesOnly p fun x => ∀ a ∈ x, isPlain a = true) : Passes s p s :=
  only.mono fun _ plain => ⟨quiet_of_plain plain, (Level.plain plain).turns s⟩

theorem passes_empty (only : TakesOnly p (· = [])) : Passes s p s :=
  passes_plain (only.mono fun x none => by simp [none])

theorem passes_text {str : String} (quiet : str.toList.all (fun a => !isQuote a && a != '\\') = true)
    (read : scan (.code, s) str.toList = some (.code, s')) : Passes s (.text str) s' := by
  refine (takesOnly_text str).mono fun x same => ?_
  subst same
  exact ⟨fun a mem => by simpa using List.all_eq_true.mp quiet a mem, turns_of read⟩

theorem passes_boundary : Passes s .boundary s :=
  passes_empty takesOnly_boundary

theorem passes_blanks : Passes s .blanks s :=
  passes_plain (takesOnly_many.mono fun _ blank a mem => isPlain_of_isBlank (blank a mem))

theorem passes_name : Passes s .name s :=
  passes_plain (takesOnly_many.mono fun _ letters a mem => isPlain_of_isName (letters a mem))

theorem passes_oneOf {l : List String} (plain : l.all (fun word => word.toList.all isPlain) = true) :
    Passes s (.oneOf l) s := by
  refine passes_plain (takesOnly_oneOf.mono fun x listed => ?_)
  obtain ⟨word, mem, rfl⟩ := listed
  exact List.all_eq_true.mp (List.all_eq_true.mp plain word mem)

theorem Passes.group (passes : Passes s p s') (i : Nat) : Passes s (.group i p) s' :=
  takesOnly_group passes i

theorem Passes.opt (passes : Passes s p s) : Passes s (.opt p) s :=
  takesOnly_opt passes ⟨by simp [Quiet], Level.nil.turns s⟩

theorem Passes.append (first : Passes s p s') (second : Passes s' q s'') : Passes s (p ++ q) s'' :=
  TakesOnly.seq first second fun _ _ h h' => ⟨Quiet.append h.1 h'.1, h.2.append h'.2⟩

/-- What the pattern takes is quiet, contains the given text and leads to these awaited closers. -/
def Enters (t : List Char) (p : Pattern) (s : List Char) : Prop :=
  TakesOnly p fun x => (Quiet x ∧ Turns [] x s) ∧ t <:+: x

namespace Enters

theorem before (enters : Enters t p s) (rest : Passes s q s') : Enters t (p ++ q) s' :=
  TakesOnly.seq enters rest fun _ y h h' =>
    ⟨⟨Quiet.append h.1.1 h'.1, h.1.2.append h'.2⟩, h.2.trans (List.prefix_append _ y).isInfix⟩

theorem behind (first : Passes [] p []) (enters : Enters t q s) : Enters t (p ++ q) s :=
  TakesOnly.seq first enters fun x _ h h' =>
    ⟨⟨Quiet.append h.1 h'.1.1, h.2.append h'.1.2⟩, h'.2.trans (List.suffix_append x _).isInfix⟩

theorem text {str : String} (quiet : Quiet str.toList) (turns : Turns [] str.toList s) (within : t <:+: str.toList) :
    Enters t (.text str) s :=
  (takesOnly_text str).mono fun x same => by
    subst same
    exact ⟨⟨quiet, turns⟩, within⟩

theorem opens (enters : Enters t p s) : TakesOnly p (Turns [] · s) :=
  TakesOnly.mono enters fun _ h => h.1.2

theorem visible (enters : Enters t p s) (visible : t ≠ []) : TakesOnly p (· ≠ []) :=
  TakesOnly.mono enters fun x h none => by
    subst none
    exact visible (List.infix_nil.mp h.2)

/-- A match that contains a text that is excluded from literals stands in code. -/
theorem inCode (enters : Enters t p s) (visible : t ≠ []) (excluded : ∀ l, P l → ¬ t <:+: l)
    (found : p.matchAt? d = some m) (h : Quotes P (around d)) : modeAt d = .code := by
  obtain ⟨-, spans, -⟩ := Pattern.matchAt?_eq_some found
  obtain ⟨⟨quiet, -⟩, within⟩ := enters.chars found
  rw [around, spans.after] at h
  exact h.inCode quiet (enters.visible visible |>.chars found) fun l holds inside =>
    excluded l holds (within.trans inside)

theorem findsInCode (enters : Enters t p s) (visible : t ≠ []) (excluded : ∀ l, P l → ¬ t <:+: l)
    (h : Quotes P (around c)) : FindsInCode p c := by
  intro m found
  obtain ⟨gap, d, toMatch, found, -⟩ := Pattern.searchAt?_eq_some found
  obtain ⟨-, -, start, -⟩ := Pattern.matchAt?_eq_some found
  rw [startOf_eq toMatch start]
  rw [← around_spans toMatch] at h
  exact enters.inCode visible excluded found h

end Enters

theorem instanceDot_visible : instanceDot ≠ [] := by
  simp [instanceDot]

theorem member_enters (plain : IsPlain name) : Enters instanceDot (member name) [] := by
  have letters : ∀ a ∈ ("this." ++ name).toList, isPlain a = true := by
    intro a mem
    rw [String.toList_append] at mem
    rcases List.mem_append.mp mem with mem | mem
    · exact List.all_eq_true.mp (by decide : "this.".toList.all isPlain = true) a mem
    · exact plain a mem
  refine .behind passes_boundary (.text (quiet_of_plain letters) (Level.plain letters) ?_)
  rw [String.toList_append]
  exact (List.prefix_append _ _).isInfix

theorem memberAccess_enters : Enters instanceDot memberAccess [] := by
  have steps : Passes [] (.opt (.group 1 (.oneOf ["++", "--"])) : Pattern) [] :=
    ((passes_oneOf (by decide)).group 1).opt
  have dot : Enters instanceDot (.text "this.") [] :=
    .text (quiet_of_plain (List.all_eq_true.mp (by decide))) (Level.ofAll (by decide)) List.infix_rfl
  exact (Enters.behind ((steps.append passes_blanks).append passes_boundary) dot).before (passes_name.group 2)

/-! ### What exchanges keep -/

/-- The texts with the property `I` have literals with the property `P`, and exchanging stretches of code with the
same effect and such literals leads from one to another. -/
structure Frame (P I : List Char → Prop) : Prop where
  quotes : ∀ {x}, I x → Quotes P x
  exchange : ∀ {u old new v s}, modeAfter u = .code → Turns [] old s → (Quotes P old → Carries P [] new s) →
    I (u ++ (old ++ v)) → I (u ++ (new ++ v))

theorem frame_quotes : Frame P (Quotes P) where
  quotes := id
  exchange code turns written h := h.exchange code turns.closed fun old => (written old).quotes

theorem frame_whole : Frame P (Whole P) where
  quotes := Whole.quotes
  exchange {u old new v s} code turns written h := by
    have old_quotes := ((h.quotes.split code).2.split turns.closed).1
    have new_leads := written old_quotes
    refine .of (fun o => ?_) (h.quotes.exchange code turns.closed fun _ => new_leads.quotes)
    have same : Same (u.foldl Mode.next .code) old new := by
      rw [show u.foldl Mode.next .code = .code from code]
      exact fun o => (turns o).trans (new_leads.turns o).symm
    rw [← scan_exchange same]
    exact h.level o

/-! ### Replacing matches -/

/-- The walk keeps what exchanges keep, if every match stands in code and is written as it reads. -/
theorem Sweeps.keeps (F : Frame P I) {f : Match → List Char} {out : List Char} (sweeps : p.Sweeps f c out)
    (each : ∀ d m, (∃ y, c.Spans y d) → p.matchAt? d = some m →
      modeAt d = .code ∧ ∃ s, Turns [] m.chars s ∧ (Quotes P m.chars → Carries P [] (f m) s))
    (mode : modeAfter u = modeAt c) (h : I (u ++ c.after)) : I (u ++ out) := by
  induction sweeps generalizing u with
  | done ends => rwa [ends] at h
  | @copy c d a out next _ _ ih =>
      rw [next.after, ← List.append_assoc] at h
      have further := ih (u := u ++ [a]) (fun e m ⟨y, reached⟩ found => each e m ⟨_, next.trans reached⟩ found)
        (by rw [modeAfter_append, mode, modeAt_spans next]) h
      rwa [List.append_assoc] at further
  | @put c m out found _ ih =>
      obtain ⟨-, spans, -⟩ := Pattern.matchAt?_eq_some found
      obtain ⟨inCode, s, turns, written⟩ := each c m ⟨[], .refl c⟩ found
      rw [spans.after] at h
      have here := (((F.quotes h).split (mode.trans inCode)).2.split turns.closed).1
      have exchanged := F.exchange (mode.trans inCode) turns written h
      rw [← List.append_assoc] at exchanged ⊢
      refine ih (fun e m ⟨y, reached⟩ found => each e m ⟨_, spans.trans reached⟩ found) ?_ exchanged
      rw [modeAfter_append, mode.trans inCode, modeAt_spans spans, inCode]
      exact (written here).turns.closed.trans turns.closed.symm

theorem replaceWith_keeps (F : Frame P I) {g : Match → String} {str : String} (visible : TakesOnly p (· ≠ []))
    (each : ∀ d m, (∃ y, (Cursor.start str.toList).Spans y d) → p.matchAt? d = some m →
      modeAt d = .code ∧ ∃ s, Turns [] m.chars s ∧ (Quotes P m.chars → Carries P [] (g m).toList s))
    (h : I str.toList) : I (p.replaceWith g str).toList := by
  have sweeps := Pattern.replaceWith_sweeps (fun _ _ found => visible.chars found) g str
  generalize (p.replaceWith g str).toList = out at sweeps ⊢
  have kept : I ([] ++ out) := Sweeps.keeps F sweeps each rfl h
  exact kept

theorem Enters.replaceWith (F : Frame P I) {g : Match → String} {str : String} (enters : Enters t p s)
    (visible : t ≠ []) (excluded : ∀ l, P l → ¬ t <:+: l)
    (written : ∀ d m, p.matchAt? d = some m → Carries P [] (g m).toList s) (h : I str.toList) :
    I (p.replaceWith g str).toList := by
  refine replaceWith_keeps F (enters.visible visible) (fun d m ⟨y, reached⟩ found => ?_) h
  have whole : Quotes P (around d) := by
    rw [around_spans reached]
    exact F.quotes h
  exact ⟨enters.inCode visible excluded found whole, s, enters.opens.chars found, fun _ => written d m found⟩

theorem Enters.replace (F : Frame P I) {new str : String} (enters : Enters t p s) (visible : t ≠ [])
    (excluded : ∀ l, P l → ¬ t <:+: l) (written : Carries P [] new.toList s) (h : I str.toList) :
    I (p.replace new str).toList :=
  enters.replaceWith F visible excluded (fun _ _ _ => written) h

/-! ### Replacing texts -/

theorem text_matchAt? {s : String} (spans : c.Spans s.toList d) :
    ∃ m, (Pattern.text s).matchAt? c = some m ∧ m.rest = d := by
  obtain ⟨m, found⟩ := Option.isSome_iff_exists.mp
    (Pattern.matchAt?_isSome (Pattern.text_steady s) ⟨d, [], Pattern.text_takes.mpr ⟨spans, rfl⟩⟩)
  obtain ⟨taken, -⟩ := Pattern.matchAt?_eq_some found
  exact ⟨m, found, (Pattern.text_takes.mp taken).1.unique spans⟩

/-- Replacing a text is replacing the matches of its pattern. -/
theorem replaceWithin_sweeps {old : String} (visible : old ≠ "") (new : List Char) {n : Nat}
    (fuel : c.after.length < n) :
    (Pattern.text old).Sweeps (fun _ => new) c (replaceWithin old.toList new n c.after) := by
  induction n generalizing c with
  | zero => exact absurd fuel (Nat.not_lt_zero _)
  | succ n ih =>
      have none (unmatched : dropLead? old.toList c.after = none) : (Pattern.text old).matchAt? c = none := by
        by_contra found
        obtain ⟨m, found⟩ := Option.ne_none_iff_exists'.mp found
        obtain ⟨taken, -⟩ := Pattern.matchAt?_eq_some found
        rw [dropLead?_eq_some_iff.mpr (Pattern.text_takes.mp taken).1.after] at unmatched
        cases unmatched
      cases after : c.after with
      | nil =>
          refine .done after (none ?_)
          rw [after]
          cases letters : old.toList with
          | nil => exact absurd (by simpa using letters) visible
          | cons a rest => rfl
      | cons a rest =>
          rw [replaceWithin]
          rw [after, List.length_cons] at fuel
          split
          · rename_i further lead
            have whole : c.after = old.toList ++ further := by
              rw [after]
              exact dropLead?_eq_some_iff.mp lead
            have spans := Cursor.spans_advance whole
            obtain ⟨m, found, same⟩ := text_matchAt? spans
            have behind : m.rest.after = further := by
              rw [same]
              exact spans.remaining whole
            have shorter := spans.shorter (by simpa using visible)
            have rest := ih (c := m.rest) (by rw [same]; rw [after, List.length_cons] at shorter; omega)
            rw [behind] at rest
            exact .put found rest
          · rename_i unmatched
            have next : c.Spans [a] c.next := Cursor.spans_next after
            have behind := next.remaining after
            have rest' := ih (c := c.next) (by rw [behind]; omega)
            rw [behind] at rest'
            exact .copy next (none (by rw [after]; exact unmatched)) rest'

/-- Leaving out a text that is in no literal. -/
theorem replaceAll_keeps (F : Frame P I) {str : String} (old : String) (enters : Enters old.toList (.text old) [])
    (visible : old ≠ "") (excluded : ∀ l, P l → ¬ old.toList <:+: l) (h : I str.toList) :
    I (replaceAll old "" str).toList := by
  have sweeps := replaceWithin_sweeps (c := .start str.toList) visible [] (Nat.lt_succ_self _)
  rw [replaceAll, replaceChars, String.toList_ofList]
  refine Sweeps.keeps F sweeps (fun d m ⟨y, reached⟩ found => ?_) (u := []) rfl h
  have whole : Quotes P (around d) := by
    rw [around_spans reached]
    exact F.quotes h
  exact ⟨enters.inCode (by simpa using visible) excluded found whole, [], enters.opens.chars found, fun _ => Whole.nil⟩

/-! ### Cutting out calls -/

/-- What a call that is found encloses. -/
theorem call_whole {inner after : List Char} (enters : Enters t p [')']) (visible : t ≠ [])
    (excluded : ∀ l, P l → ¬ t <:+: l) (found : p.searchAt? c = some m)
    (closed : enclosed? '(' m.rest.after = some (inner, after)) (h : Quotes P (around c)) : Whole P inner := by
  have inCode := enters.findsInCode visible excluded h m found
  obtain ⟨text, level, level'⟩ := call_found enters.opens found closed
  obtain ⟨gap, e, toMatch, found', -⟩ := Pattern.searchAt?_eq_some found
  rw [text] at h
  have call := ((h.split inCode).2.split level.closed).1
  exact .of level' ((call.split (enters.opens.chars found').closed).2.split level'.closed).1

/-- Exchanging a call that is found. -/
theorem call_exchange (F : Frame P I) {inner after new : List Char} (enters : Enters t p [')']) (visible : t ≠ [])
    (excluded : ∀ l, P l → ¬ t <:+: l) (found : p.searchAt? c = some m)
    (closed : enclosed? '(' m.rest.after = some (inner, after)) (written : Whole P new) (h : I (around c)) :
    I ((startOf c m).before.reverse ++ (new ++ after)) := by
  have inCode := enters.findsInCode visible excluded (F.quotes h) m found
  obtain ⟨text, level, -⟩ := call_found enters.opens found closed
  rw [text] at h
  exact F.exchange inCode (level.turns []) (fun _ => written) h

theorem unwrapWithin_keeps (F : Frame P I) (enters : Enters t p [')']) (visible : t ≠ [])
    (excluded : ∀ l, P l → ¬ t <:+: l) {n : Nat} (h : I (around c)) : I (around (unwrapWithin p n c)) := by
  induction n generalizing c with
  | zero => exact h
  | succ n ih =>
      rw [unwrapWithin]
      split
      · exact h
      · rename_i m found
        split
        · exact h
        · rename_i inner after closed
          have whole := call_whole enters visible excluded found closed (F.quotes h)
          exact ih (call_exchange F enters visible excluded found closed whole h)

theorem getCallsWithin_keeps (F : Frame P I) {f : String → String} (enters : Enters t p [')']) (visible : t ≠ [])
    (excluded : ∀ l, P l → ¬ t <:+: l)
    (written : ∀ argument : String, Whole P argument.toList → Whole P (f argument).toList) {n : Nat} (h : I (around c)) :
    I (around (getCallsWithin p f n c)) := by
  induction n generalizing c with
  | zero => exact h
  | succ n ih =>
      rw [getCallsWithin]
      split
      · exact h
      · rename_i m found
        split
        · exact h
        · rename_i inner after closed
          have whole := call_whole enters visible excluded found closed (F.quotes h)
          refine ih ?_
          rw [around_writeAt]
          refine call_exchange F enters visible excluded found closed (written _ (Whole.trim ?_)) h
          rwa [String.toList_ofList]

theorem memberCallsWithin_keeps (F : Frame P I) {handler : String → List String → Recasting (Option String)}
    (enters : Enters t p [')']) (visible : t ≠ []) (excluded : ∀ l, P l → ¬ t <:+: l)
    (written : ∀ method inner, Whole P inner →
      Gives (fun new? => ∀ new ∈ new?, Whole P new.toList) (handler method (argumentsOf inner)))
    {n : Nat} (h : I (around c)) : Gives (fun d => I (around d)) (memberCallsWithin p handler n c) := by
  induction n generalizing c with
  | zero => exact .pure h
  | succ n ih =>
      rw [memberCallsWithin]
      split
      · exact .pure h
      · rename_i m found
        split
        · exact .pure h
        · rename_i inner after closed
          have whole := call_whole enters visible excluded found closed (F.quotes h)
          refine (written _ _ whole).bind fun new? good => ?_
          cases new? with
          | none => exact ih (by rwa [around_rest found])
          | some new =>
              refine ih ?_
              rw [around_writeAt]
              exact call_exchange F enters visible excluded found closed (good new rfl) h

theorem toList_wholeText (c : Cursor) : (wholeText c).toList = around c :=
  String.toList_ofList

theorem unwrapCall_keeps (F : Frame P I) {str : String} (name : String) (plain : IsPlain name)
    (excluded : ∀ l, P l → ¬ (name ++ "(").toList <:+: l) (h : I str.toList) : I (unwrapCall str name).toList := by
  have letters : (name ++ "(").toList = name.toList ++ ['('] := String.toList_append
  have enters : Enters (name ++ "(").toList (.notAfter Pattern.isPath ++ .text (name ++ "(")) [')'] := by
    refine .behind (passes_empty takesOnly_notAfter) (.text ?_ ?_ List.infix_rfl)
    · rw [letters]
      exact Quiet.append (quiet_of_plain plain) (by simp [Quiet, isQuote])
    · rw [letters]
      exact (plain.level.turns _).append (turns_of rfl)
  unfold unwrapCall
  rw [toList_wholeText]
  exact unwrapWithin_keeps F enters (by simp [letters]) excluded h

theorem replaceGetCalls_keeps (F : Frame P I) {head : Pattern} {f : String → String} {str : String}
    (enters : Enters t head []) (visible : t ≠ []) (excluded : ∀ l, P l → ¬ t <:+: l)
    (written : ∀ argument : String, Whole P argument.toList → Whole P (f argument).toList) (h : I str.toList) :
    I (replaceGetCalls head f str).toList := by
  unfold replaceGetCalls
  rw [toList_wholeText]
  exact getCallsWithin_keeps F (enters.before (passes_text (by decide) rfl)) visible excluded written h

theorem replaceMemberCalls_keeps (F : Frame P I) {handler : String → List String → Recasting (Option String)}
    {str : String} (plain : IsPlain name) (excluded : ∀ l, P l → ¬ instanceDot <:+: l)
    (written : ∀ method inner, Whole P inner →
      Gives (fun new? => ∀ new ∈ new?, Whole P new.toList) (handler method (argumentsOf inner)))
    (h : I str.toList) : Gives (I ·.toList) (replaceMemberCalls name handler str) := by
  have dot : Passes [] (.text "." : Pattern) [] := passes_text (by decide) rfl
  have opens := (((member_enters plain).before dot).before (passes_name.group 1)).before
    (passes_text (by decide : "(".toList.all (fun a => !isQuote a && a != '\\') = true) rfl)
  have start : I (around (.start str.toList)) := h
  refine (memberCallsWithin_keeps F opens instanceDot_visible excluded written start).bind fun d held => .pure ?_
  rwa [toList_wholeText]

end ReactMigration.Recast
