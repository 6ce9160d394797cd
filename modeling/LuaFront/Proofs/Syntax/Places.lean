import LuaFront.Proofs.Syntax.Nesting
import LuaFront.Proofs.Token.Places
import Mathlib.Data.Nat.Basic
import Mathlib.Order.Basic

/-!
# LuaFront.Proofs.Syntax.Places

Where readers put nodes and diagnostics, for any text: at places where tokens start or end.

* `Reading.On P r`: the tokens that are left, and the end of the last one, stand at places of which
  `P` holds. Acts keep this, whatever they report, since a token that is made up stands at such a
  place too.
* `Reading.Marked P r`: besides, everything reported so far, or still to be reported of tokens, is
  at such places.
* `Read.Keeps I m`: the reader `m` keeps what `I` says of a reading. It is a class, so that it is
  found for readers that are put together from others. Only five readers report something of their
  own, and for them it is the current token or a target that was just read.
* `Node.spots`: the stretches in a node that something may be reported of once the text was read.
* `Tree.parse_on`: all diagnostics and all spots of a tree lie between characters.
-/

namespace LuaFront
namespace Syntax

open Text (Span)

variable {P : Nat → Prop}

/-! ## Places of tokens -/

namespace Reading

structure On (P : Nat → Prop) (r : Reading) : Prop where
  sound : r.Sound
  tokens : ∀ t ∈ r.tokens, t.span.On P
  previousEnd : P r.previousEnd

variable {r r' : Reading}

theorem On.current (h : r.On P) : r.current.span.On P :=
  h.tokens r.current (by simp [Reading.tokens])

theorem On.spanFrom (h : r.On P) {n : Nat} (hn : P n) : Span.On P ⟨n, max r.previousEnd n⟩ :=
  ⟨hn, max_rec' P h.previousEnd hn, Nat.le_max_right ..⟩

theorem Act.on (hact : Act r r') (h : r.On P) : r'.On P where
  sound := hact.sound h.sound
  tokens := fun t ht => h.tokens t (hact.advances.tokens.subset ht)
  previousEnd := by
    cases hact with
    | took =>
      rw [previousEnd_taken]
      exact max_rec' P h.previousEnd h.current.stop
    | supplied k => exact max_rec' P h.current.start h.previousEnd
    | looked =>
      rw [previousEnd_looked]
      exact h.previousEnd
    | reported d => exact h.previousEnd
    | forced k place => exact h.previousEnd

theorem Acts.on (hacts : r.Acts r') (h : r.On P) : r'.On P := by
  induction hacts with
  | refl => exact h
  | tail _ hact ih => exact hact.on ih

/-- What was read from one token to another stands where these do. -/
theorem Builds.on {first : Reading} {n : Node} (hn : first.Builds n r r') (h : r.On P) :
    n.span.On P := by
  rw [hn.span]
  exact ⟨h.current.start, (hn.passes.acts.on h).previousEnd, hn.passes.covers⟩

/-! ## Places of diagnostics -/

structure Marked (P : Nat → Prop) (r : Reading) : Prop extends On P r where
  ahead : ∀ l ∈ r.ahead, ∀ d ∈ l.diagnostics, d.span.On P
  reported : ∀ d ∈ r.diagnostics, d.span.On P

namespace Marked

theorem act (h : r.Marked P) (hact : Act r r') (hnew : ∀ d ∈ r'.diagnostics, d.span.On P) :
    r'.Marked P where
  toOn := hact.on h.toOn
  ahead := fun l hl => h.ahead l (hact.advances.ahead.subset hl)
  reported := hnew

theorem taken (h : r.Marked P) : r.taken.Marked P := by
  obtain ⟨ds, hds, hdiagnostics⟩ := r.diagnostics_taken
  refine h.act (.took r) ?_
  rw [hdiagnostics, List.forall_mem_append]
  refine ⟨h.reported, fun d hd => ?_⟩
  obtain ⟨l, hl, hd⟩ := hds d hd
  exact h.ahead l hl d hd

theorem looked (h : r.Marked P) : r.looked.Marked P := by
  obtain ⟨ds, hds, hdiagnostics⟩ := r.diagnostics_looked
  refine h.act (.looked r) ?_
  rw [hdiagnostics, List.forall_mem_append]
  refine ⟨h.reported, fun d hd => ?_⟩
  obtain ⟨l, hl, hd⟩ := hds d hd
  exact h.ahead l hl d hd

theorem report (h : r.Marked P) {d : Diagnostic} (hd : d.span.On P) :
    (r.reported d).Marked P := by
  refine h.act (.reported r d) fun e he => ?_
  simp only [Reading.diagnostics, Reading.reported, Journal.diagnostics_report, List.mem_append,
    List.mem_singleton] at he
  rcases he with he | rfl
  · exact h.reported e he
  · exact hd

theorem supplied (h : r.Marked P) (k : Kind) : (r.supplied k).Marked P :=
  h.act (.supplied r k) (by
    simpa [Reading.diagnostics, Reading.supplied, Event.diagnostic?] using h.reported)

theorem forced (h : r.Marked P) (k : Kind) (place : Nat) : (r.forced k place).Marked P :=
  h.act (.forced r k place) (by
    simpa [Reading.diagnostics, Reading.forced, Event.diagnostic?] using h.reported)

end Marked
end Reading

/-! ## Readers that keep what is said of a reading -/

namespace Read

variable {α β σ : Type} {I : Reading → Prop}

class Keeps (I : Reading → Prop) (m : Read α) : Prop where
  ensures : ∀ {r : Reading}, I r → Ensures m r fun _ r' => I r'

instance (a : α) : Keeps I (pure a) where
  ensures h := (ensures_pure a _ _).2 h

instance : Keeps I (failure : Read α) where
  ensures _ _ _ hrun := by cases hrun

instance Keeps.bind (m : Read α) (k : α → Read β) [Keeps I m] [∀ a, Keeps I (k a)] :
    Keeps I (m >>= k) where
  ensures h := (ensures_bind m k _ _).2 ((ensures h).imp fun _ _ h' => ensures h')

instance (f : α → β) (m : Read α) [Keeps I m] : Keeps I (f <$> m) := by
  rw [map_eq_pure_bind]
  infer_instance

instance (c : Prop) [Decidable c] (m m' : Read α) [Keeps I m] [Keeps I m'] :
    Keeps I (if c then m else m') := by
  split <;> infer_instance

instance : Keeps I (get : Read Reading) where
  ensures h := (ensures_get _ _).2 h

instance : Keeps I kind := by unfold kind; infer_instance
instance : Keeps I start := by unfold start; infer_instance
instance : Keeps I span := by unfold span; infer_instance
instance (n : Nat) : Keeps I (spanFrom n) := by unfold spanFrom; infer_instance

instance (step : σ → Read (σ ⊕ α)) [∀ a, Keeps I (step a)] (a : σ) : Keeps I (loop step a) where
  ensures h := by
    refine Ensures.loop (fun _ r => I r) h fun a r h => ?_
    refine (Keeps.ensures h).imp fun x r' h' => ?_
    cases x <;> exact h'

/-! ## Readers of tokens -/

section Tokens

variable {r : Reading}

theorem report_marked (h : r.Marked P) {at_ : Span} {cause : Cause} (hat : at_.On P) :
    Ensures (report at_ cause) r fun _ r' => r'.Marked P := by
  intro _ r' hrun
  rw [run_report] at hrun
  cases hrun
  split
  · exact h.report hat
  · exact h

instance : Keeps (Reading.Marked P) take where
  ensures h := (ensures_take _ _).2 h.taken

instance (k : Kind) : Keeps (Reading.Marked P) (takeIf k) := by unfold takeIf; infer_instance

instance (k : Kind) : Keeps (Reading.Marked P) (supply k) where
  ensures h := (ensures_supply k _ _).2 (h.supplied k)

instance (k : Kind) (place : Nat) :
    Keeps (Reading.Marked P)
      (modify fun s : Reading => { s with journal := s.journal.record (.forced k place) } :
        Read PUnit) where
  ensures h _ _ hrun := by
    cases hrun
    exact h.forced k place

instance : Keeps (Reading.Marked P) peekKind where
  ensures {r} h k r' hrun := by
    rw [run_peekKind] at hrun
    cases hrun
    exact h.looked

/-- The current token may be reported. -/
instance (priority := high) keeps_report (cause : Cause) (k : Unit → Read α)
    [∀ x, Keeps (Reading.Marked P) (k x)] :
    Keeps (Reading.Marked P) (span >>= fun s => report s cause >>= k) where
  ensures h := by
    simp only [ensures_bind, ensures_span]
    exact (report_marked h h.current).imp fun _ _ h' => Keeps.ensures h'

instance (priority := high) keeps_reportKind (cause : Kind → Cause) (k : Unit → Read α)
    [∀ x, Keeps (Reading.Marked P) (k x)] :
    Keeps (Reading.Marked P) (span >>= fun s => kind >>= fun x => report s (cause x) >>= k) where
  ensures h := by
    simp only [ensures_bind, ensures_span, ensures_kind]
    exact (report_marked h h.current).imp fun _ _ h' => Keeps.ensures h'

instance (k : Kind) : Keeps (Reading.Marked P) (expect k) := by unfold expect; infer_instance
instance : Keeps (Reading.Marked P) name := by unfold name; infer_instance

instance (separator : Kind) (item : Read α) [Keeps (Reading.Marked P) item] :
    Keeps (Reading.Marked P) (following separator item) := by
  unfold following; infer_instance

instance (separator : Kind) (item : Read α) [Keeps (Reading.Marked P) item] :
    Keeps (Reading.Marked P) (separated separator item) := by
  unfold separated; infer_instance

end Tokens

end Read

/-! ## Readers of the grammar -/

class Nested.Marks (P : Nat → Prop) (inner : Nested) : Prop where
  operand : ∀ parent, Read.Keeps (Reading.Marked P) (inner.operand parent)
  block : Read.Keeps (Reading.Marked P) inner.block

-- A reader in sequence has one instance for each of its steps.
set_option synthInstance.maxSize 1024

namespace Read

open Reading (Marked)

variable (d : Nat) [(Nested.upTo d).Marks P]

instance (parent : Nat) : Keeps (Marked P) ((Nested.upTo d).operand parent) :=
  Nested.Marks.operand parent

instance : Keeps (Marked P) (Nested.upTo d).block := Nested.Marks.block
instance : Keeps (Marked P) (Nested.upTo d).expression := Nested.Marks.operand 0
instance : Keeps (Marked P) (Nested.upTo d).expressions := by
  unfold Nested.expressions; infer_instance

instance : Keeps (Marked P) parameters := by unfold parameters; infer_instance
instance : Keeps (Marked P) (functionBody (.upTo d)) := by unfold functionBody; infer_instance
instance : Keeps (Marked P) literal := by unfold literal; infer_instance

instance : Keeps (Marked P) (field (.upTo d)) := by
  unfold field
  refine @Keeps.bind _ _ _ _ _ _ fun start => @Keeps.bind _ _ _ _ _ _ fun k => ?_
  extract_lets rest
  have (named : Bool) : Keeps (Marked P) (rest named) := by
    unfold rest
    infer_instance
  infer_instance

instance : Keeps (Marked P) (table (.upTo d)) := by unfold table; dsimp only; infer_instance

instance : Keeps (Marked P) (arguments (.upTo d)) := by
  unfold arguments
  refine @Keeps.bind _ _ _ _ _ _ fun k => ?_
  split <;> infer_instance

instance : Keeps (Marked P) (prefixHead (.upTo d)) := by
  unfold prefixHead
  refine @Keeps.bind _ _ _ _ _ _ fun start => @Keeps.bind _ _ _ _ _ _ fun k => ?_
  split <;> infer_instance

instance (st : Nat) (e : Expression × Shape) : Keeps (Marked P) (suffix (.upTo d) st e) := by
  unfold suffix
  refine @Keeps.bind _ _ _ _ _ _ fun k => ?_
  split <;> infer_instance

instance : Keeps (Marked P) (prefixExpression (.upTo d)) := by
  unfold prefixExpression; infer_instance

instance : Keeps (Marked P) (primary (.upTo d)) := by
  unfold primary
  refine @Keeps.bind _ _ _ _ _ _ fun start => @Keeps.bind _ _ _ _ _ _ fun k => ?_
  split <;> infer_instance

instance : Keeps (Marked P) (unary (.upTo d)) := by
  unfold unary
  refine @Keeps.bind _ _ _ _ _ _ fun start => @Keeps.bind _ _ _ _ _ _ fun k => ?_
  split <;> infer_instance

instance (parent st : Nat) (left : Expression) :
    Keeps (Marked P) (infixed (.upTo d) parent st left) := by
  unfold infixed
  refine @Keeps.bind _ _ _ _ _ _ fun k => ?_
  split <;> infer_instance

instance (parent : Nat) : Keeps (Marked P) (Read.operand (.upTo d) parent) := by
  unfold Read.operand; infer_instance

instance : Keeps (Marked P) (blockToEnd (.upTo d)) := by unfold blockToEnd; infer_instance
instance : Keeps (Marked P) (results (.upTo d)) := by unfold results; infer_instance
instance : Keeps (Marked P) (result (.upTo d)) := by unfold result; infer_instance
instance : Keeps (Marked P) (elseIf (.upTo d)) := by unfold elseIf; infer_instance
instance : Keeps (Marked P) (elseIfs (.upTo d)) := by unfold elseIfs; infer_instance
instance : Keeps (Marked P) (otherwise (.upTo d)) := by unfold otherwise; infer_instance
instance : Keeps (Marked P) (ifThen (.upTo d)) := by unfold ifThen; infer_instance
instance : Keeps (Marked P) (step (.upTo d)) := by unfold step; infer_instance
instance : Keeps (Marked P) (forLoop (.upTo d)) := by unfold forLoop; infer_instance
instance : Keeps (Marked P) method := by unfold method; infer_instance
instance : Keeps (Marked P) functionName := by unfold functionName; infer_instance
instance : Keeps (Marked P) (function (.upTo d)) := by unfold function; infer_instance
instance : Keeps (Marked P) attrib := by unfold attrib; infer_instance
instance : Keeps (Marked P) declaration := by unfold declaration; infer_instance
instance : Keeps (Marked P) (initializer (.upTo d)) := by unfold initializer; infer_instance
instance : Keeps (Marked P) (localStatement (.upTo d)) := by unfold localStatement; infer_instance

theorem checkTarget_marked {r : Reading} (h : r.Marked P) {e : Expression} (he : e.span.On P) :
    Ensures (checkTarget e) r fun _ r' => r'.Marked P := by
  unfold checkTarget
  simp only [ensures_bind, ensures_ite, ensures_pure]
  split
  · exact report_marked h he
  · exact h

/-- A target stands from its first token to its last one. -/
theorem prefixExpression_marked {r : Reading} (h : r.Marked P) :
    Ensures (prefixExpression (.upTo d)) r fun e r' => r'.Marked P ∧ e.1.span.On P := by
  refine Ensures.and (Keeps.ensures h) ?_
  refine (prefixExpression_builds (Nested.lays_upTo d) ⟨h.sound, .refl r⟩).imp fun e r' he => ?_
  exact he.on h.toOn

instance : Keeps (Marked P) (do checkTarget (← prefixExpression (.upTo d)).1) where
  ensures h := by
    rw [ensures_bind]
    exact (prefixExpression_marked d h).imp fun _ _ h' => checkTarget_marked h'.1 h'.2

instance : Keeps (Marked P) (callOrAssign (.upTo d)) where
  ensures h := by
    unfold callOrAssign
    rw [ensures_bind, ensures_start, ensures_bind]
    refine (prefixExpression_marked d h).imp ?_
    rintro ⟨e, shape⟩ r₁ ⟨h₁, he⟩
    simp only [ensures_ite]
    split
    · exact Keeps.ensures h₁
    · rw [ensures_bind]
      exact (checkTarget_marked h₁ he).imp fun _ _ h₂ => Keeps.ensures h₂

instance : Keeps (Marked P) skipToStatement := by unfold skipToStatement; infer_instance

instance : Keeps (Marked P) (statement (.upTo d)) := by
  unfold statement
  refine @Keeps.bind _ _ _ _ _ _ fun start => @Keeps.bind _ _ _ _ _ _ fun k => ?_
  split <;> infer_instance

instance : Keeps (Marked P) (statementOrSkip (.upTo d)) := by
  unfold statementOrSkip; dsimp only; infer_instance

instance : Keeps (Marked P) (Read.block (.upTo d)) := by
  unfold Read.block; dsimp only; infer_instance

instance : Keeps (Marked P) (chunk (.upTo d)) := by unfold chunk; infer_instance

end Read

instance Nested.marks_upTo (depth : Nat) : (Nested.upTo depth).Marks P := by
  induction depth with
  | zero =>
    exact ⟨fun _ => inferInstanceAs (Read.Keeps _ failure), inferInstanceAs (Read.Keeps _ failure)⟩
  | succ depth ih =>
    exact ⟨fun parent => inferInstanceAs (Read.Keeps _ (Read.operand _ parent)),
      inferInstanceAs (Read.Keeps _ (Read.block _))⟩

/-! ## Spots of nodes -/

/-- The stretches in a statement that a rule about it points to. -/
def Statement.spots : Statement → List Span
  | .declare ds _ _ => ds.flatMap fun d => d.span :: d.attrib.toList.map Name.span
  | .breakLoop at_ => [at_]
  | .goto n _ | .label n _ => [n.span]
  | .function f _ _ => f.path.map Name.span
  | _ => []

def Node.spots : Node → List Span
  | .expression e => [e.span]
  | .statement s => s.spots
  | _ => []

namespace Read

variable {α : Type} {r : Reading}

theorem ensures_on (m : Read α) [Acting m] (h : r.On P) : Ensures m r fun _ r' => r'.On P :=
  fun _ _ hrun => (Acting.acts hrun).on h

@[simp] theorem ensures_true (m : Read α) (r : Reading) : Ensures m r (fun _ _ => True) ↔ True :=
  iff_true_intro fun _ _ _ => trivial

theorem name_on (h : r.On P) : Ensures name r fun n _ => n.span.On P :=
  (name_builds ⟨h.sound, .refl r⟩).imp fun _ _ hn => hn.on h

theorem attrib_on (h : r.On P) : Ensures attrib r fun a _ => ∀ n ∈ a, n.span.On P := by
  unfold attrib
  simp only [ensures_bind, ensures_takeIf]
  split
  · simp only [if_true, ensures_bind, ensures_pure]
    refine (name_on ((Reading.Act.took r).on h)).imp fun n r₁ hn => ?_
    intro _ _ _ m hm
    cases hm
    exact hn
  · simp

theorem declaration_on (h : r.On P) :
    Ensures declaration r fun d _ => d.span.On P ∧ ∀ n ∈ d.attrib, n.span.On P := by
  refine Ensures.and ?_ ?_
  · exact (declaration_builds ⟨h.sound, .refl r⟩).imp fun _ _ hd => hd.on h
  · unfold declaration
    simp only [ensures_bind, ensures_start, ensures_spanFrom, ensures_pure]
    exact (ensures_on name h).imp fun n r₁ h₁ => attrib_on h₁

/-- What holds of an item wherever it is read holds of all items of a list. -/
theorem separated_on {item : Read α} [Acting item] {separator : Kind} {Q : α → Prop}
    (hitem : ∀ r : Reading, r.On P → Ensures item r fun a _ => Q a) (h : r.On P) :
    Ensures (separated separator item) r fun as _ => ∀ a ∈ as, Q a := by
  have hboth (r : Reading) (h : r.On P) : Ensures item r fun a r' => Q a ∧ r'.On P :=
    (hitem r h).and (ensures_on item h)
  unfold separated following
  simp only [ensures_bind, ensures_pure]
  refine (hboth r h).imp ?_
  rintro a r₁ ⟨ha, h₁⟩
  refine Ensures.loop (fun as r' => (∀ b ∈ as, Q b) ∧ r'.On P) ⟨by simp, h₁⟩ ?_
  rintro as r₂ ⟨has, h₂⟩
  simp only [ensures_bind, ensures_takeIf]
  split
  · simp only [if_true, ensures_bind, ensures_pure]
    refine (hboth _ ((Reading.Act.took r₂).on h₂)).imp ?_
    rintro b r₃ ⟨hb, h₃⟩
    refine ⟨fun c hc => ?_, h₃⟩
    rcases List.mem_append.1 hc with hc | hc
    · exact has c hc
    · rw [List.mem_singleton] at hc
      rw [hc]
      exact hb
  · simp only [Bool.false_eq_true, if_false, ensures_pure]
    exact List.forall_mem_cons.2 ⟨ha, has⟩

theorem functionName_on (h : r.On P) :
    Ensures functionName r fun f _ => ∀ n ∈ f.path, n.span.On P := by
  unfold functionName
  simp only [ensures_bind, ensures_start, ensures_spanFrom, ensures_pure]
  refine (separated_on (fun _ h' => name_on h') h).imp fun path r₁ hpath => ?_
  exact fun _ _ _ => hpath

theorem function_on (h : r.On P) (inner : Nested) :
    Ensures (function inner) r fun s _ => ∀ x ∈ s.spots, x.On P := by
  unfold function
  simp only [ensures_bind, ensures_start, ensures_spanFrom, ensures_pure]
  refine (ensures_on (expect _) h).imp fun _ r₁ h₁ => ?_
  refine (functionName_on h₁).imp fun f r₂ hf => ?_
  intro _ _ _
  exact List.forall_mem_map.2 hf

theorem localStatement_on (h : r.On P) (inner : Nested) :
    Ensures (localStatement inner) r fun s _ => ∀ x ∈ s.spots, x.On P := by
  unfold localStatement
  simp only [ensures_bind, ensures_start, ensures_takeIf]
  refine (ensures_on (expect _) h).imp fun _ r₁ h₁ => ?_
  split
  · simp [Statement.spots]
  · simp only [Bool.false_eq_true, if_false, ensures_bind, ensures_spanFrom, ensures_pure]
    refine (separated_on (fun _ h' => declaration_on h') h₁).imp fun ds r₂ hds => ?_
    intro _ _ _ x hx
    obtain ⟨d, hd, hx⟩ := List.mem_flatMap.1 hx
    rcases List.mem_cons.1 hx with rfl | hx
    · exact (hds d hd).1
    · obtain ⟨n, hn, rfl⟩ := List.mem_map.1 hx
      exact (hds d hd).2 n (Option.mem_toList.1 hn)

theorem statement_on (h : r.On P) (inner : Nested) :
    Ensures (statement inner) r fun x _ => ∀ s ∈ x, ∀ y ∈ s.spots, y.On P := by
  have htaken := (Reading.Act.took r).on h
  have hone {x : Span} (hx : x.On P) {s : Statement} (hs : s.spots = [x]) :
      ∀ s' ∈ some s, ∀ y ∈ s'.spots, y.On P := by
    simpa [hs] using hx
  unfold statement
  simp only [ensures_bind, ensures_start, ensures_kind]
  split
  next => simp [ifThen, Statement.spots]
  next => simp [forLoop, Statement.spots]
  next => simpa using function_on h inner
  next => simpa using localStatement_on h inner
  next => simp [callOrAssign, Statement.spots]
  next => simp [callOrAssign, Statement.spots]
  next => simp [Statement.spots]
  next => simp [Statement.spots]
  next => simp [Statement.spots]
  next =>
    simp only [ensures_bind, ensures_take, ensures_spanFrom, ensures_pure]
    refine (name_on htaken).imp fun n r₁ hn => ?_
    exact fun _ _ _ => hone hn rfl
  next =>
    simp only [ensures_bind, ensures_take, ensures_spanFrom, ensures_pure]
    exact (name_on htaken).imp fun n r₁ hn => hone hn rfl
  next =>
    simp only [ensures_bind, ensures_take, ensures_spanFrom, ensures_pure]
    exact hone (htaken.spanFrom h.current.start) rfl
  next => simp

end Read

/-- The spots of a node stand where the tokens of the first reading do. -/
theorem Node.Sourced.spots_on {first last : Reading} {n : Node} (hn : n.Sourced first last)
    (h : first.On P) : ∀ x ∈ n.spots, x.On P := by
  cases n with
  | expression e =>
    obtain ⟨depth, r, r', hr, -, hspan, hread⟩ := hn.origin
    have hon := hr.on h
    have hle : e.span.start ≤ e.span.stop := hn.framed.le
    refine List.forall_mem_singleton.2 ⟨?_, ?_, hle⟩
    · rw [hspan]
      exact hon.current.start
    · rw [hspan]
      exact (hread.acts.on hon).previousEnd
  | statement s =>
    obtain ⟨depth, r, r', hr, -, -, hrun⟩ := hn.origin
    exact Read.statement_on (hr.on h) _ _ _ hrun s rfl
  | _ => simp [Node.spots]

/-! ## Texts -/

/-- All that the lexer found stands between characters. -/
theorem Reading.marked_ofSource (source : Text.Source) :
    (ofSource source).Marked (Text.Boundary source.chars) := by
  have hlexemes (l : Lexeme) (hl : l ∈ (Scanner.ofSource source).lexemes) :=
    Scanner.on_of_mem_lexemes hl
  have hsound := sound_ofSource source
  have htokens : ∀ t ∈ (ofSource source).tokens, t.span.On (Text.Boundary source.chars) := by
    intro t ht
    rw [tokens_ofSource] at ht
    obtain ⟨l, hl, rfl⟩ := List.mem_map.1 ht
    exact (hlexemes l hl).1
  rw [ofSource_eq] at hsound htokens ⊢
  cases hl : (Scanner.ofSource source).lexemes with
  | nil =>
    rw [hl] at hsound htokens
    exact ⟨⟨hsound, htokens, .zero _⟩, by simp [ofLexemes], by simp [ofLexemes, diagnostics]⟩
  | cons l ahead =>
    rw [hl] at hsound htokens hlexemes
    refine ⟨⟨hsound, htokens, .zero _⟩, fun x hx => ?_, fun d hd => ?_⟩
    · exact (hlexemes x (List.mem_cons_of_mem l hx)).2
    · have hd : d ∈ l.diagnostics := by simpa [ofLexemes, diagnostics] using hd
      exact (hlexemes l List.mem_cons_self).2 d hd

namespace Tree

/-- What is reported of a text lies between its characters, and so do the spots of its tree. -/
theorem parse_on (source : Text.Source) :
    (∀ d ∈ (parse source).diagnostics, d.span.On (Text.Boundary source.chars)) ∧
      (Node.block (parse source).root.block).Everywhere fun n =>
        ∀ x ∈ n.spots, x.On (Text.Boundary source.chars) := by
  have hmarked := Reading.marked_ofSource source
  have hlen : (Reading.ofSource source).tokens.length ≤
      (Reading.ofSource source).ahead.length + 1 := by
    simp [Reading.tokens]
  constructor
  · obtain ⟨last, hlast, hdiagnostics⟩ := parse_of_yields
      ((Read.chunk_reads hmarked.sound hlen).of_ensures (Read.Keeps.ensures hmarked))
    rw [hdiagnostics]
    exact hlast.reported
  · obtain ⟨last, hspreads, -⟩ := parse_lays source
    refine Node.everywhere_iff.2 ⟨by simp [Node.spots], fun n hn => ?_⟩
    exact (hspreads.nodes n hn).imp fun m hm => hm.spots_on hmarked.toOn

end Tree
end Syntax
end LuaFront
