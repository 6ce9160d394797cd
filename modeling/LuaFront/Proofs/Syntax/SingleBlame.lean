import LuaFront.Proofs.Syntax.Consumption
import LuaFront.Proofs.Token.Causes

/-!
# LuaFront.Proofs.Syntax.SingleBlame

How often a token is blamed.

A diagnostic blames a token if it says that the token was met where it does not belong. A report is
dropped if the latest one is about the same stretch of text, so that one wrong token is blamed once,
however many tokens are supplied in front of it.

* `Reading.Calm r`: the current token was not blamed so far, or its blame is the latest report.
* `Reading.Pending r`: behind the blame a target was reported that cannot be assigned to. This is the
  only report that comes between, and the equals sign behind the target is expected next.
* `Read.Calming m`: the reader `m` leads from calm to calm. All readers of the grammar do.
* `Tree.parse_blames`: so a token is blamed again only right behind such a target.
-/

namespace LuaFront

open Text (Span)

namespace Diagnostic

/-- It says that a token was met where it does not belong. -/
def Blames (d : Diagnostic) : Prop := ∃ k, d.cause.Names k

theorem not_blames_of_isLexical {d : Diagnostic} (h : d.cause.IsLexical = true) : ¬ d.Blames := by
  rintro ⟨k, hnames⟩
  cases hc : d.cause <;> rw [hc] at h hnames <;> cases hnames <;> cases h

theorem not_blames_of_target {d : Diagnostic} (h : d.cause = .invalidAssignmentTarget) :
    ¬ d.Blames := by
  rintro ⟨k, hnames⟩
  rw [h] at hnames
  cases hnames

/-- The two latest reports: a token at `at_` is blamed, and then a target in front of it. -/
def Excuses (before : List Diagnostic) (at_ : Span) : Prop :=
  ∃ earlier b t, before = earlier ++ [b, t] ∧ b.Blames ∧ b.span = at_ ∧
    t.cause = .invalidAssignmentTarget ∧ t.span.stop ≤ at_.start

/-- A token that is blamed was not blamed before, unless there is an excuse for that. -/
def BlamedOnce (ds : List Diagnostic) : Prop :=
  ∀ before d after, ds = before ++ d :: after → d.Blames →
    (∀ b ∈ before, b.Blames → b.span ≠ d.span) ∨ Excuses before d.span

namespace BlamedOnce

variable {ds ds' : List Diagnostic} {d : Diagnostic}

theorem nil : BlamedOnce [] := by
  intro before d after h
  cases before <;> cases h

theorem snoc (h : BlamedOnce ds)
    (hd : d.Blames → (∀ b ∈ ds, b.Blames → b.span ≠ d.span) ∨ Excuses ds d.span) :
    BlamedOnce (ds ++ [d]) := by
  intro before e after heq he
  rcases List.eq_nil_or_concat after with rfl | ⟨after, x, rfl⟩
  · obtain ⟨rfl, rfl⟩ := List.append_singleton_inj.1 heq
    exact hd he
  · rw [List.concat_eq_append, ← List.cons_append, ← List.append_assoc] at heq
    obtain ⟨rfl, rfl⟩ := List.append_singleton_inj.1 heq
    exact h before e after rfl he

theorem append (h : BlamedOnce ds) (hds : ∀ d ∈ ds', ¬ d.Blames) : BlamedOnce (ds ++ ds') := by
  induction ds' generalizing ds with
  | nil => rwa [List.append_nil]
  | cons d ds' ih =>
    obtain ⟨hd, hds'⟩ := List.forall_mem_cons.1 hds
    rw [List.append_cons]
    exact ih (h.snoc fun hb => absurd hb hd) hds'

/-- Where no target is reported, there is no excuse. -/
theorem pairwise (h : BlamedOnce ds) (hnone : ∀ d ∈ ds, d.cause ≠ .invalidAssignmentTarget) :
    ds.Pairwise fun b d => b.Blames → d.Blames → b.span ≠ d.span := by
  rw [List.pairwise_iff_getElem]
  intro i j hi hj hij hb hd
  have hsplit : ds = ds.take j ++ ds[j] :: ds.drop (j + 1) := by
    rw [← List.drop_eq_getElem_cons, List.take_append_drop]
  rcases h _ _ _ hsplit hd with hfirst | ⟨earlier, b, t, hbefore, -, -, ht, -⟩
  · exact hfirst _ (List.mem_take_iff_getElem.2 ⟨i, by omega, rfl⟩) hb
  · have hmem : t ∈ ds := List.mem_of_mem_take (hbefore ▸ by simp : t ∈ ds.take j)
    exact absurd ht (hnone t hmem)

end BlamedOnce
end Diagnostic

namespace Syntax

open Diagnostic (Excuses BlamedOnce)

/-! ## Readings -/

namespace Reading

variable {r r' : Reading} {d : Diagnostic}

/-- The current token was not blamed so far. -/
def Unblamed (r : Reading) : Prop := ∀ b ∈ r.diagnostics, b.Blames → b.span ≠ r.current.span

/-- The latest report blames the current token. -/
def Blamed (r : Reading) : Prop :=
  ∃ earlier b, r.diagnostics = earlier ++ [b] ∧ b.Blames ∧ b.span = r.current.span

/-- Tokens were blamed as often as they may be, and none of those that are left but the first. -/
structure Even (r : Reading) : Prop where
  once : BlamedOnce r.diagnostics
  reached : ∀ b ∈ r.diagnostics, b.Blames →
    b.span = r.current.span ∨ b.span.start < r.current.span.start
  lexical : ∀ l ∈ r.ahead, ∀ d ∈ l.diagnostics, d.cause.IsLexical = true

structure Calm (r : Reading) : Prop extends Even r where
  latest : r.Unblamed ∨ r.Blamed

/-- The current token was blamed, and a target in front of it was reported behind that. -/
structure Pending (r : Reading) : Prop extends Even r where
  excused : Excuses r.diagnostics r.current.span
  apart : r.journal.lastDiagnostic?.map Diagnostic.span ≠ some r.current.span

theorem diagnostics_reported (r : Reading) (d : Diagnostic) :
    (r.reported d).diagnostics = r.diagnostics ++ [d] :=
  Journal.diagnostics_report ..

/-- Nothing was done that matters for what was blamed. -/
theorem Calm.congr (h : r.Calm) (hdiagnostics : r'.diagnostics = r.diagnostics)
    (hcurrent : r'.current = r.current) (hahead : r'.ahead = r.ahead) : r'.Calm := by
  obtain ⟨⟨honce, hreached, hlexical⟩, hlatest⟩ := h
  refine ⟨⟨?_, ?_, ?_⟩, ?_⟩
  · rwa [hdiagnostics]
  · rwa [hdiagnostics, hcurrent]
  · rwa [hahead]
  · unfold Unblamed Blamed at *
    rwa [hdiagnostics, hcurrent]

/-- What is wrong with the tokens ahead blames none of them. -/
theorem Even.not_blames (h : r.Even) {ds : List Diagnostic}
    (hds : ∀ d ∈ ds, ∃ l ∈ r.ahead, d ∈ l.diagnostics) : ∀ d ∈ ds, ¬ d.Blames := by
  intro d hd
  obtain ⟨l, hl, hmem⟩ := hds d hd
  exact Diagnostic.not_blames_of_isLexical (h.lexical l hl d hmem)

/-- No token was blamed before it is the current one. -/
theorem Even.taken (h : r.Even) (hr : r.Sound) (hk : r.current.kind ≠ .endOfFile) :
    r.taken.Calm ∧ r.taken.Unblamed := by
  have hstart := hr.start_lt_taken hk
  obtain ⟨ds, hahead, hdiagnostics⟩ := r.diagnostics_taken
  have hds := h.not_blames hahead
  have hbefore : ∀ b ∈ r.taken.diagnostics, b.Blames →
      b.span.start < r.taken.current.span.start := by
    rw [hdiagnostics, List.forall_mem_append]
    refine ⟨fun b hb hblames => ?_, fun b hb hblames => absurd hblames (hds b hb)⟩
    rcases h.reached b hb hblames with heq | hlt
    · rwa [heq]
    · exact Nat.lt_trans hlt hstart
  have hunblamed : r.taken.Unblamed := fun b hb hblames heq =>
    absurd (hbefore b hb hblames) (by rw [heq]; exact Nat.lt_irrefl _)
  refine ⟨⟨⟨?_, fun b hb hblames => .inr (hbefore b hb hblames), ?_⟩, .inl hunblamed⟩, hunblamed⟩
  · rw [hdiagnostics]
    exact h.once.append hds
  · exact fun l hl => h.lexical l ((advances_taken r).ahead.subset hl)

theorem Calm.taken (h : r.Calm) (hr : r.Sound) : r.taken.Calm := by
  by_cases hk : r.current.kind = .endOfFile
  · have hnil : r.ahead = [] := List.map_eq_nil_iff.1 (hr.ordered.of_endOfFile hk).1
    refine h.congr ?_ ?_ ?_
    · simp [Reading.taken, hnil, diagnostics, Event.diagnostic?]
    · simp [Reading.taken, hnil]
    · simp [Reading.taken, hnil]
  · exact (h.toEven.taken hr hk).1

theorem Calm.looked (h : r.Calm) (hunblamed : r.Unblamed) : r.looked.Calm := by
  obtain ⟨ds, hahead, hdiagnostics⟩ := r.diagnostics_looked
  have hds := h.not_blames hahead
  have hlexical : ∀ l ∈ r.looked.ahead, ∀ d ∈ l.diagnostics, d.cause.IsLexical = true := by
    rw [ahead_looked]
    exact h.lexical
  refine ⟨⟨?_, ?_, hlexical⟩, .inl ?_⟩
  · rw [hdiagnostics]
    exact h.once.append hds
  · rw [hdiagnostics, current_looked, List.forall_mem_append]
    exact ⟨h.reached, fun d hd hb => absurd hb (hds d hd)⟩
  · unfold Unblamed
    rw [hdiagnostics, current_looked, List.forall_mem_append]
    exact ⟨hunblamed, fun d hd hb => absurd hb (hds d hd)⟩

/-- What is reported without blaming a token. -/
theorem Even.reported (h : r.Even) (hd : ¬ d.Blames) : (r.reported d).Even := by
  refine ⟨?_, ?_, h.lexical⟩
  · rw [diagnostics_reported]
    exact h.once.snoc fun hb => absurd hb hd
  · rw [diagnostics_reported, List.forall_mem_append]
    exact ⟨h.reached, List.forall_mem_singleton.2 fun hb => absurd hb hd⟩

/-- The current token is blamed where it may be. -/
theorem Even.blame (h : r.Even) (hd : d.Blames) (hspan : d.span = r.current.span)
    (hfirst : r.Unblamed ∨ Excuses r.diagnostics r.current.span) : (r.reported d).Calm := by
  refine ⟨⟨?_, ?_, h.lexical⟩, .inr ⟨r.diagnostics, d, diagnostics_reported .., hd, hspan⟩⟩
  · rw [diagnostics_reported]
    refine h.once.snoc fun _ => ?_
    rw [hspan]
    exact hfirst
  · rw [diagnostics_reported, List.forall_mem_append]
    exact ⟨h.reached, List.forall_mem_singleton.2 fun _ => .inl hspan⟩

/-- A token that was blamed just now is not blamed again. -/
theorem Blamed.last (h : r.Blamed) :
    r.journal.lastDiagnostic?.map Diagnostic.span = some r.current.span := by
  obtain ⟨earlier, b, hdiagnostics, -, hspan⟩ := h
  have hjournal : r.journal.diagnostics = earlier ++ [b] := hdiagnostics
  rw [Journal.lastDiagnostic?_eq, hjournal, List.getLast?_append]
  simp [hspan]

theorem calm_ofSource (source : Text.Source) : (ofSource source).Calm := by
  have hlexical := Scanner.isLexical_of_mem_lexemes (Scanner.ofSource source)
  rw [ofSource_eq]
  cases hl : (Scanner.ofSource source).lexemes with
  | nil =>
    refine ⟨⟨.nil, ?_, ?_⟩, .inl ?_⟩
    all_goals
      intro _ h
      cases h
  | cons l ahead =>
    rw [hl] at hlexical
    obtain ⟨hhere, hahead⟩ := List.forall_mem_cons.1 hlexical
    have hdiagnostics : (ofLexemes (l :: ahead)).diagnostics = l.diagnostics := by
      simp [diagnostics, ofLexemes]
    have hnone : ∀ b ∈ (ofLexemes (l :: ahead)).diagnostics, ¬ b.Blames := by
      rw [hdiagnostics]
      exact fun b hb => Diagnostic.not_blames_of_isLexical (hhere b hb)
    refine ⟨⟨?_, fun b hb hblames => absurd hblames (hnone b hb), hahead⟩,
      .inl fun b hb hblames => absurd hblames (hnone b hb)⟩
    have honce := BlamedOnce.nil.append hnone
    rwa [List.nil_append] at honce

end Reading

/-! ## Calming readers -/

namespace Read

variable {α β σ : Type}

class Calming (m : Read α) : Prop where
  calm : ∀ {r : Reading} {a : α} {r' : Reading}, r.Sound → r.Calm → m.run r = some (a, r') → r'.Calm

/-- A reader that leads from calm to calm where the current token is of kind `x`. -/
class CalmingAt (x : Kind) (m : Read α) : Prop where
  calm : ∀ {r : Reading} {a : α} {r' : Reading}, r.Sound → r.Calm → r.current.kind = x →
    m.run r = some (a, r') → r'.Calm

instance (a : α) : Calming (pure a) where
  calm _ hcalm hrun := by
    cases hrun
    exact hcalm

instance : Calming (failure : Read α) where
  calm _ _ hrun := by cases hrun

section

variable (x : Kind) (m : Read α) (k : α → Read β)

instance Calming.bind [Acting m] [Calming m] [∀ a, Calming (k a)] : Calming (m >>= k) where
  calm hr hcalm hrun := by
    obtain ⟨a, r₁, hm, hk⟩ := run_bind_eq_some.1 hrun
    exact Calming.calm ((Acting.acts hm).sound hr) (Calming.calm hr hcalm hm) hk

instance [Acting m] [CalmingAt x m] [∀ a, Calming (k a)] : CalmingAt x (m >>= k) where
  calm hr hcalm hx hrun := by
    obtain ⟨a, r₁, hm, hk⟩ := run_bind_eq_some.1 hrun
    exact Calming.calm ((Acting.acts hm).sound hr) (CalmingAt.calm hr hcalm hx hm) hk

end

instance (f : α → β) (m : Read α) [Acting m] [Calming m] : Calming (f <$> m) := by
  rw [map_eq_pure_bind]
  infer_instance

instance (c : Prop) [Decidable c] (m m' : Read α) [Calming m] [Calming m'] :
    Calming (if c then m else m') := by
  split <;> infer_instance

instance : Calming (get : Read Reading) where
  calm _ hcalm hrun := by
    cases hrun
    exact hcalm

instance : Calming kind := by unfold kind; infer_instance
instance : Calming start := by unfold start; infer_instance
instance : Calming span := by unfold span; infer_instance
instance (n : Nat) : Calming (spanFrom n) := by unfold spanFrom; infer_instance

instance : Calming take where
  calm hr hcalm hrun := by
    rw [run_take] at hrun
    cases hrun
    exact hcalm.taken hr

instance (k : Kind) : Calming (takeIf k) := by unfold takeIf; infer_instance

instance (k : Kind) : Calming (supply k) where
  calm _ hcalm hrun := by
    cases hrun
    refine hcalm.congr ?_ rfl rfl
    simp [Reading.diagnostics, Event.diagnostic?]

instance (k : Kind) (place : Nat) :
    Calming (modify fun s : Reading => { s with journal := s.journal.record (.forced k place) } :
      Read PUnit) where
  calm _ hcalm hrun := by
    cases hrun
    refine hcalm.congr ?_ rfl rfl
    simp [Reading.diagnostics, Event.diagnostic?]

/-- Where the current token was blamed just now, it is not blamed again. Where it was not, it is,
unless the latest report is what the lexer said of it. -/
theorem calm_report {cause : Cause} {r r' : Reading} {u : Unit} (hr : r.Calm)
    (hnames : cause.Names r.current.kind)
    (hrun : (report r.current.span cause).run r = some (u, r')) : r'.Calm := by
  rw [run_report] at hrun
  cases hrun
  split
  next hlast =>
    rcases hr.latest with hunblamed | hblamed
    · exact hr.toEven.blame ⟨_, hnames⟩ rfl (.inl hunblamed)
    · exact absurd hblamed.last hlast
  next => exact hr

/-- What is expected is there, or its absence is blamed on the current token. -/
theorem calm_expect {k : Kind} {r r' : Reading} {t : Token} (hr : r.Sound)
    (htaken : r.current.kind = k → r.taken.Calm)
    (hreport : ∀ {u r₁}, (report r.current.span (.unexpectedToken k r.current.kind)).run r =
      some (u, r₁) → r₁.Calm)
    (hrun : (expect k).run r = some (t, r')) : r'.Calm := by
  rw [expect, run_kind_bind] at hrun
  split at hrun
  next hk =>
    rw [run_take] at hrun
    cases hrun
    exact htaken hk
  next =>
    rw [run_span_bind, run_kind_bind] at hrun
    obtain ⟨u, r₁, hreported, hsupply⟩ := run_bind_eq_some.1 hrun
    exact Calming.calm ((Acting.acts hreported).sound hr) (hreport hreported) hsupply

instance (k : Kind) : Calming (expect k) where
  calm hr hcalm hrun :=
    calm_expect hr (fun _ => hcalm.taken hr) (calm_report hcalm (.unexpectedToken k)) hrun

instance : Calming name := by unfold name; infer_instance

instance (step : σ → Read (σ ⊕ α)) [∀ a, Acting (step a)] [∀ a, Calming (step a)] (turns : Nat)
    (a : σ) : Calming (loopWith step turns a) := by
  induction turns generalizing a with
  | zero => unfold loopWith; infer_instance
  | succ turns ih =>
    rw [loopWith]
    refine @Calming.bind _ _ _ _ _ _ fun x => ?_
    cases x <;> infer_instance

instance (step : σ → Read (σ ⊕ α)) [∀ a, Acting (step a)] [∀ a, Calming (step a)] (a : σ) :
    Calming (loop step a) := by
  unfold loop; infer_instance

instance (separator : Kind) (item : Read α) [Acting item] [Calming item] :
    Calming (following separator item) := by
  unfold following; infer_instance

instance (separator : Kind) (item : Read α) [Acting item] [Calming item] :
    Calming (separated separator item) := by
  unfold separated; infer_instance

/-- Looking ahead may say something about the next token, but before the current one is blamed. -/
theorem calm_peekKind {r r' : Reading} {k : Kind} (hr : r.Calm) (hunblamed : r.Unblamed)
    (hrun : peekKind.run r = some (k, r')) : r'.Calm := by
  rw [run_peekKind] at hrun
  cases hrun
  exact hr.looked hunblamed

end Read

/-! ## Readers of the grammar -/

class Nested.Calming (inner : Nested) : Prop where
  operand : ∀ parent, Read.Calming (inner.operand parent)
  block : Read.Calming inner.block

-- A reader in sequence has one instance for each of its steps.
set_option synthInstance.maxSize 4096

namespace Read

variable (d : Nat) [(Nested.upTo d).Calming]

instance (parent : Nat) : Calming ((Nested.upTo d).operand parent) := Nested.Calming.operand parent
instance : Calming (Nested.upTo d).block := Nested.Calming.block
instance : Calming (Nested.upTo d).expression := Nested.Calming.operand 0
instance : Calming (Nested.upTo d).expressions := by unfold Nested.expressions; infer_instance

instance : Calming parameters := by unfold parameters; infer_instance
instance : Calming (functionBody (.upTo d)) := by unfold functionBody; infer_instance
instance : Calming literal := by unfold literal; infer_instance

instance (st : Nat) (named : Bool) : Calming (fieldRest (.upTo d) st named) := by
  unfold fieldRest; infer_instance

/-- A field is looked at before its first token is blamed, if ever it is. -/
theorem calm_field {r r' : Reading} {f : Field} (hr : r.Sound) (hcalm : r.Calm)
    (hunblamed : r.Unblamed) (hrun : (field (.upTo d)).run r = some (f, r')) : r'.Calm := by
  rw [field_eq, run_start_bind, run_kind_bind] at hrun
  split at hrun
  next =>
    obtain ⟨k, r₁, hpeek, hrest⟩ := run_bind_eq_some.1 hrun
    exact Calming.calm ((Acting.acts hpeek).sound hr) (calm_peekKind hcalm hunblamed hpeek) hrest
  next => exact Calming.calm hr hcalm hrun

/-- Every field starts behind a brace or a separator, with a token that was not blamed yet. -/
theorem calm_fields {fields : List Field} {r : Reading} (hr : r.Sound) (hcalm : r.Calm)
    (hunblamed : r.Unblamed) :
    Ensures (loop (fieldStep (.upTo d)) fields) r fun _ r' => r'.Calm := by
  refine Ensures.loop (fun _ r => r.Sound ∧ r.Calm ∧ r.Unblamed) ⟨hr, hcalm, hunblamed⟩ ?_
  rintro fields r₁ ⟨hr₁, hcalm₁, hunblamed₁⟩
  unfold fieldStep fieldEnd
  simp only [ensures_bind, ensures_kind, ensures_ite, ensures_pure, ensures_take]
  split
  · exact hcalm₁
  intro f r₂ hfield
  have hr₂ := (Acting.acts hfield).sound hr₁
  have hcalm₂ := calm_field d hr₁ hcalm₁ hunblamed₁ hfield
  split
  next hk =>
    refine ⟨hr₂.taken, hcalm₂.toEven.taken hr₂ ?_⟩
    rcases hk with hk | hk <;> simp [hk]
  next => exact hcalm₂

instance : CalmingAt (.sign .openBrace) (table (.upTo d)) where
  calm {r e r'} hr hcalm hx hrun := by
    rw [table_eq, run_start_bind] at hrun
    obtain ⟨_, r₁, hbrace, hrest⟩ := run_bind_eq_some.1 hrun
    rw [run_expect hx] at hbrace
    cases hbrace
    obtain ⟨hcalm₁, hunblamed⟩ := hcalm.toEven.taken hr (by simp [hx])
    obtain ⟨fields, r₂, hfields, hrest⟩ := run_bind_eq_some.1 hrest
    have hcalm₂ := calm_fields d hr.taken hcalm₁ hunblamed fields r₂ hfields
    exact Calming.calm ((Acting.acts hfields).sound hr.taken) hcalm₂ hrest

instance : Calming (arguments (.upTo d)) where
  calm {r x r'} hr hcalm hrun := by
    rw [arguments, run_kind_bind] at hrun
    split at hrun
    next => exact Calming.calm hr hcalm hrun
    next hk => exact CalmingAt.calm hr hcalm hk hrun
    next => exact Calming.calm hr hcalm hrun

instance : Calming (prefixHead (.upTo d)) where
  calm {r x r'} hr hcalm hrun := by
    rw [prefixHead, run_start_bind, run_kind_bind] at hrun
    split at hrun
    · exact Calming.calm hr hcalm hrun
    · exact Calming.calm hr hcalm hrun
    · rw [run_span_bind] at hrun
      obtain ⟨u, r₁, hreport, hrest⟩ := run_bind_eq_some.1 hrun
      exact Calming.calm ((Acting.acts hreport).sound hr)
        (calm_report hcalm .expectedExpression hreport) hrest

instance (st : Nat) (e : Expression × Shape) : Calming (suffix (.upTo d) st e) := by
  unfold suffix
  refine @Calming.bind _ _ _ _ _ _ fun k => ?_
  split <;> infer_instance

instance : Calming (prefixExpression (.upTo d)) := by unfold prefixExpression; infer_instance

instance : Calming (primary (.upTo d)) where
  calm {r x r'} hr hcalm hrun := by
    rw [primary, run_start_bind, run_kind_bind] at hrun
    split at hrun
    all_goals
      rename_i hk
      first
        | exact Calming.calm hr hcalm hrun
        | exact CalmingAt.calm hr hcalm hk hrun

instance : Calming (unary (.upTo d)) := by
  unfold unary
  refine @Calming.bind _ _ _ _ _ _ fun start => @Calming.bind _ _ _ _ _ _ fun k => ?_
  split <;> infer_instance

instance (parent st : Nat) (left : Expression) : Calming (infixed (.upTo d) parent st left) := by
  unfold infixed
  refine @Calming.bind _ _ _ _ _ _ fun k => ?_
  split <;> infer_instance

instance (parent : Nat) : Calming (Read.operand (.upTo d) parent) := by
  unfold Read.operand; infer_instance

instance : Calming (blockToEnd (.upTo d)) := by unfold blockToEnd; infer_instance
instance : Calming (results (.upTo d)) := by unfold results; infer_instance
instance : Calming (result (.upTo d)) := by unfold result; infer_instance
instance : Calming (elseIf (.upTo d)) := by unfold elseIf; infer_instance
instance : Calming (elseIfs (.upTo d)) := by unfold elseIfs; infer_instance
instance : Calming (otherwise (.upTo d)) := by unfold otherwise; infer_instance
instance : Calming (ifThen (.upTo d)) := by unfold ifThen; infer_instance
instance : Calming (step (.upTo d)) := by unfold step; infer_instance
instance : Calming (forLoop (.upTo d)) := by unfold forLoop; infer_instance
instance : Calming method := by unfold method; infer_instance
instance : Calming functionName := by unfold functionName; infer_instance
instance : Calming (function (.upTo d)) := by unfold function; infer_instance
instance : Calming attrib := by unfold attrib; infer_instance
instance : Calming declaration := by unfold declaration; infer_instance
instance : Calming (initializer (.upTo d)) := by unfold initializer; infer_instance
instance : Calming (localStatement (.upTo d)) := by unfold localStatement; infer_instance

/-! ### Targets -/

omit [(Nested.upTo d).Calming] in
/-- The report of a target may come behind a blame of the token that the target ends at. -/
theorem loose_checkTarget {r₀ r r' : Reading} {e e' : Expression} {shape : Shape} (hr₀ : r₀.Sound)
    (htarget : (prefixExpression (.upTo d)).run r₀ = some ((e, shape), r)) (hcalm : r.Calm)
    (hrun : (checkTarget e).run r = some (e', r')) : r'.Calm ∨ r'.Pending := by
  have hr := (Acting.acts htarget).sound hr₀
  have hbuilds := prefixExpression_builds (Nested.lays_upTo d) ⟨hr₀, .refl r₀⟩ _ _ htarget
  have hspan : e.span = ⟨r₀.current.span.start, r.previousEnd⟩ := hbuilds.span
  unfold checkTarget at hrun
  cases he : e.isVariable with
  | true =>
    rw [he] at hrun
    cases hrun
    exact .inl hcalm
  | false =>
    rw [he] at hrun
    obtain ⟨_, r₁, hreport, hpure⟩ := run_bind_eq_some.1 hrun
    cases hpure
    rw [run_report] at hreport
    cases hreport
    have hcause : ¬ (⟨e.span, .invalidAssignmentTarget⟩ : Diagnostic).Blames :=
      Diagnostic.not_blames_of_target rfl
    have heven := hcalm.toEven.reported hcause
    split
    next hlast =>
      rcases hcalm.latest with hunblamed | hblamed
      · refine .inl ⟨heven, .inl ?_⟩
        unfold Reading.Unblamed
        rw [Reading.diagnostics_reported, List.forall_mem_append]
        exact ⟨hunblamed, List.forall_mem_singleton.2 fun hb => absurd hb hcause⟩
      · refine .inr ⟨heven, ?_, ?_⟩
        · obtain ⟨earlier, b, hdiagnostics, hb, hat⟩ := hblamed
          refine ⟨earlier, b, ⟨e.span, .invalidAssignmentTarget⟩, ?_, hb, hat, rfl, ?_⟩
          · rw [Reading.diagnostics_reported, hdiagnostics, List.append_assoc]
            rfl
          · rw [hspan]
            exact hr.start_ge
        · rw [hblamed.last] at hlast
          exact fun heq => hlast heq.symm
    next => exact .inl hcalm

theorem loose_target {r r' : Reading} {e : Expression} (hr : r.Sound) (hcalm : r.Calm)
    (hrun : (do checkTarget (← prefixExpression (.upTo d)).1 : Read Expression).run r =
      some (e, r')) : r'.Calm ∨ r'.Pending := by
  obtain ⟨⟨e₀, shape⟩, r₁, htarget, hcheck⟩ := run_bind_eq_some.1 hrun
  exact loose_checkTarget d hr htarget (Calming.calm hr hcalm htarget) hcheck

/-- What follows a target is a comma, which is consumed, or the last target. -/
theorem loose_targets {r : Reading} (hr : r.Sound) (hloose : r.Calm ∨ r.Pending) :
    Ensures (following (.sign .comma) (do checkTarget (← prefixExpression (.upTo d)).1)) r
      fun _ r' => r'.Calm ∨ r'.Pending := by
  refine Ensures.loop (fun _ r => r.Sound ∧ (r.Calm ∨ r.Pending)) ⟨hr, hloose⟩ ?_
  rintro es r₁ ⟨hr₁, hloose₁⟩
  rw [ensures_bind, ensures_takeIf]
  split
  next hk =>
    have heven : r₁.Even := hloose₁.elim (·.toEven) (·.toEven)
    have hcalm := (heven.taken hr₁ (by simp [hk])).1
    simp only [if_true]
    rw [ensures_bind]
    intro e r₂ htarget
    rw [ensures_pure]
    exact ⟨(Acting.acts htarget).sound hr₁.taken, loose_target d hr₁.taken hcalm htarget⟩
  next =>
    simp only [Bool.false_eq_true, if_false, ensures_pure]
    exact hloose₁

/-- Behind the targets an equals sign is expected. Its absence is blamed on a token that was blamed
already, if the report of a target came between. -/
theorem calm_expect_of_loose {k : Kind} {r r' : Reading} {t : Token} (hk : k ≠ .endOfFile)
    (hr : r.Sound) (hloose : r.Calm ∨ r.Pending) (hrun : (expect k).run r = some (t, r')) :
    r'.Calm := by
  rcases hloose with hcalm | hpending
  · exact Calming.calm hr hcalm hrun
  · refine calm_expect hr (fun hx => (hpending.toEven.taken hr (hx ▸ hk)).1) ?_ hrun
    intro u r₁ hreport
    rw [run_report, if_pos hpending.apart] at hreport
    cases hreport
    exact hpending.toEven.blame ⟨_, .unexpectedToken k⟩ rfl (.inr hpending.excused)

instance : Calming (callOrAssign (.upTo d)) where
  calm {r s r'} hr hcalm hrun := by
    rw [callOrAssign, run_start_bind] at hrun
    obtain ⟨⟨e, shape⟩, r₁, htarget, hrest⟩ := run_bind_eq_some.1 hrun
    have hr₁ := (Acting.acts htarget).sound hr
    have hcalm₁ : r₁.Calm := Calming.calm hr hcalm htarget
    simp only at hrest
    split at hrest
    next => exact Calming.calm hr₁ hcalm₁ hrest
    next =>
      obtain ⟨e', r₂, hcheck, hrest⟩ := run_bind_eq_some.1 hrest
      have hr₂ := (Acting.acts hcheck).sound hr₁
      obtain ⟨es, r₃, htargets, hrest⟩ := run_bind_eq_some.1 hrest
      have hr₃ := (Acting.acts htargets).sound hr₂
      obtain ⟨t, r₄, hequals, hrest⟩ := run_bind_eq_some.1 hrest
      have hloose := loose_targets d hr₂ (loose_checkTarget d hr htarget hcalm₁ hcheck) _ _ htargets
      exact Calming.calm ((Acting.acts hequals).sound hr₃)
        (calm_expect_of_loose (by simp) hr₃ hloose hequals) hrest

/-! ### Statements -/

instance : Calming skipToStatement := by unfold skipToStatement; infer_instance

instance : Calming (statement (.upTo d)) where
  calm {r x r'} hr hcalm hrun := by
    rw [statement, run_start_bind, run_kind_bind] at hrun
    split at hrun
    iterate 12
      · exact Calming.calm hr hcalm hrun
    · rw [run_span_bind] at hrun
      obtain ⟨u, r₁, hreport, hrest⟩ := run_bind_eq_some.1 hrun
      exact Calming.calm ((Acting.acts hreport).sound hr)
        (calm_report hcalm .expectedExpression hreport) hrest

instance : Calming (statementOrSkip (.upTo d)) := by
  unfold statementOrSkip; dsimp only; infer_instance

instance (statements : List Statement) : Calming (blockStep (.upTo d) statements) := by
  unfold blockStep; infer_instance

instance : Calming (Read.block (.upTo d)) where
  calm hr hcalm hrun := by
    obtain ⟨x, hloop, -⟩ := run_block hrun
    exact Calming.calm hr hcalm hloop

instance : Calming (chunk (.upTo d)) := by
  unfold chunk
  refine @Calming.bind _ _ _ _ _ _ fun block => ?_
  refine @Calming.bind _ _ _ _ _ ?_ inferInstance
  have (b : Block) : Calming (do
      if (← kind) = .endOfFile then return .inr b
      report (← span) (.unexpectedToken .endOfFile (← kind))
      let _ ← take
      let rest ← (Nested.upTo d).block
      return .inl { statements := b.statements ++ rest.statements
                    result := b.result <|> rest.result
                    span := ← spanFrom b.span.start } : Read (Block ⊕ Block)) := by
    constructor
    intro r x r' hr hcalm hrun
    rw [run_kind_bind] at hrun
    split at hrun
    next => exact Calming.calm hr hcalm hrun
    next =>
      rw [run_span_bind, run_kind_bind] at hrun
      obtain ⟨u, r₁, hreport, hrest⟩ := run_bind_eq_some.1 hrun
      exact Calming.calm ((Acting.acts hreport).sound hr)
        (calm_report hcalm (.unexpectedToken .endOfFile) hreport) hrest
  infer_instance

end Read

instance Nested.calming_upTo (depth : Nat) : (Nested.upTo depth).Calming := by
  induction depth with
  | zero =>
    exact ⟨fun _ => inferInstanceAs (Read.Calming failure), inferInstanceAs (Read.Calming failure)⟩
  | succ depth ih =>
    exact ⟨fun parent => inferInstanceAs (Read.Calming (Read.operand _ parent)),
      inferInstanceAs (Read.Calming (Read.block _))⟩

/-! ## Texts -/

namespace Tree

/-- A token, or the end of file, is blamed once, however many tokens are missed there. It is blamed
again only if a target in front of it, which cannot be assigned to, was reported right behind its
blame. So where no such target is reported, no two diagnostics blame the same stretch. -/
theorem parse_blames (source : Text.Source) :
    BlamedOnce (parse source).diagnostics ∧
    ((∀ d ∈ (parse source).diagnostics, d.cause ≠ .invalidAssignmentTarget) →
      (parse source).diagnostics.Pairwise fun b d => b.Blames → d.Blames → b.span ≠ d.span) := by
  obtain ⟨c, last, hrun, hjournal⟩ := run_parse source
  have hcalm : last.Calm := by
    rw [Reading.nested] at hrun
    exact Read.Calming.calm (Reading.sound_ofSource source) (Reading.calm_ofSource source) hrun
  have hdiagnostics : (parse source).diagnostics = last.diagnostics := by
    rw [diagnostics, hjournal, Journal.diagnostics_record]
    exact List.append_nil _
  rw [hdiagnostics]
  exact ⟨hcalm.once, hcalm.once.pairwise⟩

/-- Three keywords are missed at the end of this text, and a name and an expression before. -/
theorem parse_blames_nested :
    let source := Text.Source.ofString "for = while f(do repeat"
    (∀ d ∈ (parse source).diagnostics, d.cause ≠ .invalidAssignmentTarget) ∧
      (parse source).diagnostics.Pairwise (fun b d => b.Blames → d.Blames → b.span ≠ d.span) ∧
      (parse source).diagnostics.map Diagnostic.span = [⟨4, 5⟩, ⟨6, 11⟩, ⟨14, 16⟩, ⟨23, 23⟩] := by
  intro source
  have hnone : ∀ d ∈ (parse source).diagnostics, d.cause ≠ .invalidAssignmentTarget := by
    decide +kernel
  exact ⟨hnone, (parse_blames source).2 hnone, by decide +kernel⟩

/-- The end of this text is blamed for the parenthesis, and once more for the equals sign. -/
theorem parse_blames_again :
    ¬ ∀ source, (parse source).diagnostics.Pairwise
      fun b d => b.Blames → d.Blames → b.span ≠ d.span := by
  intro hall
  have hdiagnostics : (parse (.ofString "(a")).diagnostics =
      [⟨⟨2, 2⟩, .unexpectedToken (.sign .closeParenthesis) .endOfFile⟩,
        ⟨⟨0, 2⟩, .invalidAssignmentTarget⟩,
        ⟨⟨2, 2⟩, .unexpectedToken (.sign .equals) .endOfFile⟩] := by
    decide +kernel
  have hpairs := hall (.ofString "(a")
  rw [hdiagnostics] at hpairs
  exact List.rel_of_pairwise_cons hpairs (List.mem_cons_of_mem _ List.mem_cons_self)
    ⟨_, .unexpectedToken _⟩ ⟨_, .unexpectedToken _⟩ rfl

end Tree
end Syntax
end LuaFront
