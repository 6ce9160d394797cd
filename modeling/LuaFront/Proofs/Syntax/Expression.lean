import LuaFront.Proofs.Syntax.Reading
import LuaFront.Syntax.Reading.Statement

/-!
# LuaFront.Proofs.Syntax.Expression

What reading an expression achieves. Under readers for what is nested that are good for `n` tokens
(`Nested.Good`), every reader here

* gives a result with up to `n + 1` tokens left, since it consumes one before it turns to what is
  nested;
* has consumed a derivation of its result, unless something was reported;
* builds a tree whose blocks are labelled well.
-/

namespace LuaFront
namespace Syntax

open Text (Span)
open Grammar

/-- Readers for nested constructs, as long as at most `n` tokens are left. -/
structure Nested.Good (inner : Nested) (n : Nat) : Prop where
  operand : ∀ (parent : Nat) (r : Reading), r.Sound → r.tokens.length ≤ n →
    Read.Yields (inner.operand parent) r fun e r' =>
      r.Reads (Derives (.expression e)) r' ∧ (Node.expression e).Tidy
  block : ∀ r : Reading, r.Sound → r.tokens.length ≤ n →
    Read.Yields inner.block r fun b r' =>
      r.Reads (Derives (.block b)) r' ∧ (Node.block b).Tidy

/-- What a prefix expression is. -/
def Expression.shape : Expression → Read.Shape
  | .parenthesized .. => .parenthesized
  | .call .. => .call
  | _ => .variable

theorem BinaryOperator.kind_of_ofKind? {k : Kind} {op : BinaryOperator} (h : ofKind? k = some op) :
    k = op.kind := by
  have := List.find?_some h
  exact (of_decide_eq_true this).symm

theorem UnaryOperator.kind_of_ofKind? {k : Kind} {op : UnaryOperator} (h : ofKind? k = some op) :
    k = op.kind := by
  have := List.find?_some h
  exact (of_decide_eq_true this).symm

theorem BinaryOperator.kind_ne_endOfFile (op : BinaryOperator) : op.kind ≠ .endOfFile := by
  cases op <;> simp [kind]

theorem UnaryOperator.kind_ne_endOfFile (op : UnaryOperator) : op.kind ≠ .endOfFile := by
  cases op <;> simp [kind]

theorem Grammar.Following.expressions {es : List Expression} {i o : List Token}
    (h : Following (.sign .comma) (fun e => Derives (.expression e)) es i o) :
    Derives (.moreExpressions es) i o := by
  induction h with
  | nil => exact .noExpressions
  | cons hitem _ ih =>
    obtain ⟨m, hcomma, he⟩ := hitem
    exact .moreExpressions hcomma he ih

namespace Read

variable {inner : Nested} {n : Nat} {r : Reading}

theorem expressions_reads (hin : inner.Good n) (h : r.Sound) (hlen : r.tokens.length ≤ n) :
    Yields inner.expressions r fun es r' =>
      r.Reads (Derives (.expressions es)) r' ∧ ∀ e ∈ es, (Node.expression e).Tidy := by
  unfold Nested.expressions
  refine (separated_reads (by simp) (hin.operand 0) h hlen).imp ?_
  rintro es r' ⟨hr, ht⟩
  refine ⟨?_, ht⟩
  refine hr.imp fun i o hio => ?_
  cases es with
  | nil => exact hio.elim
  | cons e es =>
    obtain ⟨m, he, hes⟩ := hio
    exact .expressions he hes.expressions

/-! ## Functions -/

theorem parameters_reads (h : r.Sound) :
    Yields parameters r fun p r' =>
      r.Reads (fun i o => (p = ([], false) ∧ i = o) ∨ Parameters p.1 p.2 i o) r' := by
  unfold parameters
  simp only [yields_bind, yields_kind, yields_ite]
  split
  · rw [yields_pure]
    exact (Reading.Reads.refl h).imp fun i o hio => .inl ⟨rfl, hio⟩
  -- What is read so far may be continued by any further parameters.
  refine Yields.loop
    (fun names r' => r.Reads (fun i m => ∀ ns vararg o, Parameters ns vararg m o →
      Parameters (names ++ ns) vararg i o) r')
    ((Reading.Reads.refl h).imp fun i m him ns vararg o hp => him ▸ hp) fun names r₁ h₁ => ?_
  simp only [yields_bind, yields_takeIf]
  split
  next hk =>
    simp only [if_true, yields_pure]
    refine (h₁.comp (Reading.reads_taken h₁.sound hk (by simp))).imp ?_
    rintro i o ⟨m, hnames, hdots⟩
    exact .inr (by simpa using hnames [] true o (.dots hdots))
  · simp only [Bool.false_eq_true, if_false, yields_bind]
    refine (name_reads h₁.sound).imp ?_
    rintro x r₂ ⟨h₂, _, _⟩
    rw [yields_takeIf]
    split
    next hk =>
      simp only [if_true, yields_pure]
      have hlt := h₂.sound.length_taken (by simp [hk])
      refine ⟨(h₁.comp (h₂.comp (Reading.reads_taken h₂.sound hk (by simp)))).imp ?_, ?_⟩
      · rintro i m ⟨_, hnames, _, hx, hcomma⟩ ns vararg o hp
        simpa using hnames (x :: ns) vararg o (.more hx hcomma hp)
      · have := h₂.length_le
        omega
    · simp only [Bool.false_eq_true, if_false, yields_pure]
      refine (h₁.comp h₂).imp ?_
      rintro i o ⟨m, hnames, hx⟩
      exact .inr (hnames [x] false o (.last hx))

theorem functionBody_reads (hin : inner.Good n) (h : r.Sound) (hlen : r.tokens.length ≤ n) :
    Yields (functionBody inner) r fun f r' =>
      r.Reads (Derives (.functionBody f)) r' ∧ (Node.functionBody f).Tidy := by
  unfold functionBody
  simp only [yields_bind, yields_start, yields_spanFrom, yields_pure]
  refine (expect_reads h (by simp)).imp fun _ r₁ h₁ => ?_
  refine (parameters_reads h₁.sound).imp fun p r₂ h₂ => ?_
  refine (expect_reads h₂.sound (by simp)).imp fun _ r₃ h₃ => ?_
  have hle := (h₁.comp (h₂.comp h₃)).length_le
  refine (hin.block r₃ h₃.sound (by omega)).imp ?_
  rintro b r₄ ⟨h₄, hb⟩
  refine (expect_reads h₄.sound (by simp)).imp fun _ r₅ h₅ => ⟨?_, Node.tidy_functionBody.2 hb⟩
  refine (h₁.comp (h₂.comp (h₃.comp (h₄.comp h₅)))).imp ?_
  rintro i o ⟨_, hopen, _, ⟨hp, rfl⟩ | hp, _, hclose, _, hblock, hend⟩
  · rw [hp]
    exact .niladic hopen hclose hblock hend
  · exact .parametric hopen hp hclose hblock hend

/-! ## Literals and tables -/

theorem literal_reads (h : r.Sound) (hk : isLiteral r.current.kind = true) :
    Yields literal r fun e r' =>
      r.Reads (Derives (.expression e)) r' ∧ (Node.expression e).Tidy := by
  unfold literal
  simp only [yields_bind, yields_take, yields_pure]
  refine ⟨⟨h.taken, Reading.advances_taken r, fun _ => ?_⟩, ?_⟩
  · have hne : r.current.kind ≠ .endOfFile := by
      intro he
      rw [he] at hk
      cases hk
    rw [h.tokens_eq hne]
    exact .literal hk
  · exact Node.tidy_expression.2 (by simp [Expression.parts])

theorem keyed_reads (hin : inner.Good n) (h : r.Sound) (hlen : r.tokens.length ≤ n)
    (hk : r.current.kind = .sign .openBracket) :
    Yields (field inner) r fun f r' =>
      r.Reads (Derives (.field f)) r' ∧ (Node.field f).Tidy := by
  unfold field
  simp only [yields_bind, yields_start, yields_kind, yields_ite, yields_pure, yields_take,
    yields_spanFrom, hk, reduceCtorEq, if_false, if_true]
  have h₁ := Reading.reads_taken h hk (by simp)
  have hle₁ := h₁.length_le
  refine (hin.operand 0 _ h₁.sound (by omega)).imp ?_
  rintro key r₂ ⟨h₂, hkey⟩
  refine (expect_reads h₂.sound (by simp)).imp fun _ r₃ h₃ => ?_
  refine (expect_reads h₃.sound (by simp)).imp fun _ r₄ h₄ => ?_
  have hle₄ := (h₂.comp (h₃.comp h₄)).length_le
  refine (hin.operand 0 _ h₄.sound (by omega)).imp ?_
  rintro value r₅ ⟨h₅, hvalue⟩
  refine ⟨?_, ?_⟩
  · refine (h₁.comp (h₂.comp (h₃.comp (h₄.comp h₅)))).imp ?_
    rintro i o ⟨_, hopen, _, hkey, _, hclose, _, hequals, hvalue⟩
    exact .keyed hopen hkey hclose hequals hvalue
  · exact Node.tidy_field.2 (by simpa [Field.parts] using ⟨hkey, hvalue⟩)

theorem field_reads (hin : inner.Good n) (h : r.Sound) (hlen : r.tokens.length ≤ n) :
    Yields (field inner) r fun f r' =>
      r.Reads (Derives (.field f)) r' ∧ (Node.field f).Tidy := by
  by_cases hbracket : r.current.kind = .sign .openBracket
  · exact keyed_reads hin h hlen hbracket
  have hpositional (r₀ : Reading) (h₀ : r.Rests r₀) :
      Yields inner.expression r₀ fun value r' => ∀ s,
        r.Reads (Derives (.field (.positional value s))) r' ∧
          (Node.field (.positional value s)).Tidy := by
    refine (hin.operand 0 _ h₀.sound (h₀.tokens_eq ▸ hlen)).imp ?_
    rintro value r₁ ⟨h₁, hvalue⟩ s
    exact ⟨(h₀.reads_comp h₁).imp fun i o hio => .positional hio,
      Node.tidy_field.2 (by simpa [Field.parts] using hvalue)⟩
  unfold field
  by_cases hname : r.current.kind = .name
  · simp only [yields_bind, yields_start, yields_kind, yields_ite, yields_pure, yields_take,
      yields_spanFrom, hname, if_true]
    refine (yields_peekKind h).imp ?_
    rintro k r₀ ⟨h₀, hpeek⟩
    simp only [h₀.current, hname, reduceCtorEq, if_false, decide_eq_true_eq]
    split
    next hequals =>
      have hk₀ : r₀.current.kind = .name := by rw [h₀.current, hname]
      have htokens := h₀.sound.tokens_eq (by simp [hk₀])
      have hk₁ : r₀.taken.current.kind = .sign .equals := by
        rw [← hequals]
        exact (hpeek _ _ _ (h₀.tokens_eq.symm.trans htokens)).symm
      have hword : r₀.Reads (Word ⟨r₀.current.name, r₀.current.span⟩) r₀.taken :=
        ⟨h₀.sound.taken, Reading.advances_taken r₀, fun _ => htokens ▸ .mk hk₀⟩
      have h₂ := Reading.reads_taken h₀.sound.taken hk₁ (by simp)
      have hle := (hword.comp h₂).length_le
      rw [h₀.tokens_eq] at hle
      unfold name
      simp only [yields_bind, yields_pure, expect_takes hk₀]
      refine (hin.operand 0 _ h₂.sound (by omega)).imp ?_
      rintro value r₃ ⟨h₃, hvalue⟩
      refine ⟨?_, ?_⟩
      · refine (h₀.reads_comp (hword.comp (h₂.comp h₃))).imp ?_
        rintro i o ⟨_, hn, _, hequals, hvalue⟩
        exact .named hn hequals hvalue
      · exact Node.tidy_field.2 (by simpa [Field.parts] using hvalue)
    · exact (hpositional r₀ h₀).imp fun value r₁ h₁ => h₁ _
  · simp only [yields_bind, yields_start, yields_kind, yields_ite, yields_pure, yields_take,
      yields_spanFrom, hname, hbracket, Bool.false_eq_true, if_false]
    exact (hpositional r ⟨h, rfl, rfl, List.prefix_refl _⟩).imp fun value r₁ h₁ => h₁ _

theorem table_reads (hin : inner.Good n) (h : r.Sound) (hlen : r.tokens.length ≤ n + 1)
    (hk : r.current.kind = .sign .openBrace) :
    Yields (table inner) r fun e r' => ∃ fs s, e = .table fs s ∧
      r.Reads (Derives (.table fs)) r' ∧ (Node.expression e).Tidy ∧
      r'.tokens.length < r.tokens.length := by
  have h₁ := Reading.reads_taken h hk (by simp)
  have hlt := h.length_taken (by simp [hk])
  unfold table
  simp only [yields_bind, yields_start, expect_takes hk]
  -- The fields read so far, each with its separator, may be continued by any others.
  refine Yields.imp (Yields.loop
    (Q := fun fs r' => r.taken.Reads (Derives (.fields fs)) r' ∧ ∀ f ∈ fs, (Node.field f).Tidy)
    (fun fs r' => r.taken.Reads (fun i m => ∀ gs o, Derives (.fields gs) m o →
        Derives (.fields (fs ++ gs)) i o) r' ∧ ∀ f ∈ fs, (Node.field f).Tidy)
    ⟨(Reading.Reads.refl h.taken).imp fun i m him gs o hg => him ▸ hg, by simp⟩ ?_) ?_
  · rintro fs r₂ ⟨h₂, hfs⟩
    have hle₂ := h₂.length_le
    simp only [yields_bind, yields_kind, yields_ite, yields_pure, yields_take]
    split
    · exact ⟨h₂.imp fun i o hio => by simpa using hio [] o .noFields, hfs⟩
    refine (field_reads hin h₂.sound (by omega)).imp ?_
    rintro f r₃ ⟨h₃, hf⟩
    have hall : ∀ g ∈ fs ++ [f], (Node.field g).Tidy := by
      simpa [or_imp, forall_and] using ⟨hfs, hf⟩
    have hle₃ := h₃.length_le
    split
    next hsep =>
      have hne : r₃.current.kind ≠ .endOfFile := by rcases hsep with hs | hs <;> simp [hs]
      have hlt₃ := h₃.sound.length_taken hne
      refine ⟨⟨?_, hall⟩, by omega⟩
      refine (h₂.comp (h₃.comp (Reading.reads_taken h₃.sound rfl hne))).imp ?_
      rintro i m ⟨_, hfields, _, hfield, hterm⟩ gs o hg
      simpa using hfields (f :: gs) o (.moreFields hfield hsep hterm hg)
    · refine ⟨(h₂.comp h₃).imp ?_, hall⟩
      rintro i o ⟨_, hfields, hfield⟩
      exact hfields [f] o (.lastField hfield)
  · rintro fs r₂ ⟨h₂, hfs⟩
    simp only [yields_spanFrom, yields_pure]
    refine (expect_reads h₂.sound (by simp)).imp fun _ r₃ h₃ => ⟨fs, _, rfl, ?_, ?_, ?_⟩
    · refine (h₁.comp (h₂.comp h₃)).imp ?_
      rintro i o ⟨_, hopen, _, hfields, hclose⟩
      exact .braces hopen hfields hclose
    · exact Node.tidy_expression.2 (by simpa [Expression.parts] using hfs)
    · have := (h₂.comp h₃).length_le
      omega

/-! ## Prefix expressions -/

/-- Arguments are read behind a token, or start with one of their own. -/
theorem arguments_reads (hin : inner.Good n) (h : r.Sound) (hlen : r.tokens.length ≤ n + 1)
    (hstart : r.tokens.length ≤ n ∨ opensArguments r.current.kind = true) :
    Yields (arguments inner) r fun es r' =>
      r.Reads (Derives (.arguments es)) r' ∧ (∀ e ∈ es, (Node.expression e).Tidy) ∧
      (opensArguments r.current.kind = true → r'.tokens.length < r.tokens.length) := by
  unfold arguments
  simp only [yields_bind, yields_kind]
  split
  next hk =>
    simp only [yields_bind, yields_pure, literal, yields_take]
    refine ⟨⟨h.taken, Reading.advances_taken r, fun _ => ?_⟩, ?_, fun _ => ?_⟩
    · rw [h.tokens_eq (by simp [hk])]
      exact .stringArgument hk
    · simpa using Node.tidy_expression.2 (by simp [Expression.parts])
    · exact h.length_taken (by simp [hk])
  next hk =>
    simp only [yields_bind, yields_pure]
    refine (table_reads hin h hlen hk).imp ?_
    rintro e r₁ ⟨fs, s, rfl, h₁, htidy, hlt⟩
    exact ⟨h₁.imp fun i o hio => .tableArgument hio, by simpa using htidy, fun _ => hlt⟩
  next hstring hbrace =>
    have hk (hopens : opensArguments r.current.kind = true) :
        r.current.kind = .sign .openParenthesis := by
      unfold opensArguments at hopens
      split at hopens <;> simp_all
    have hopen : Yields (expect (.sign .openParenthesis)) r fun _ r' =>
        r.Reads (Terminal (.sign .openParenthesis)) r' ∧ r'.tokens.length ≤ n ∧
          (opensArguments r.current.kind = true → r'.tokens.length < r.tokens.length) := by
      refine ((expect_reads h (by simp)).and (yields_expect h _)).imp ?_
      rintro _ r₁ ⟨h₁, hr₁⟩
      have hle := h₁.length_le
      have hlt (hopens : opensArguments r.current.kind = true) :
          r₁.tokens.length < r.tokens.length := by
        rcases hr₁ with ⟨_, _, rfl⟩ | ⟨hne, _⟩
        · exact h.length_taken (by simp [hk hopens])
        · exact absurd (hk hopens) hne
      refine ⟨h₁, ?_, hlt⟩
      rcases hstart with hstart | hopens
      · omega
      · have := hlt hopens
        omega
    simp only [yields_bind, yields_kind, yields_ite, yields_pure]
    refine hopen.imp ?_
    rintro _ r₁ ⟨h₁, hle₁, hlt⟩
    split
    · refine (expect_reads h₁.sound (by simp)).imp fun _ r₂ h₂ => ⟨?_, by simp, fun ho => ?_⟩
      · refine (h₁.comp h₂).imp ?_
        rintro i o ⟨_, hopen, hclose⟩
        exact .noArguments hopen hclose
      · exact Nat.lt_of_le_of_lt h₂.length_le (hlt ho)
    · refine (expressions_reads hin h₁.sound hle₁).imp ?_
      rintro es r₂ ⟨h₂, hes⟩
      refine (expect_reads h₂.sound (by simp)).imp fun _ r₃ h₃ => ⟨?_, hes, fun ho => ?_⟩
      · refine (h₁.comp (h₂.comp h₃)).imp ?_
        rintro i o ⟨_, hopen, _, hes, hclose⟩
        exact .someArguments hopen hes hclose
      · exact Nat.lt_of_le_of_lt (h₂.comp h₃).length_le (hlt ho)

theorem prefixHead_reads (hin : inner.Good n) (h : r.Sound) (hlen : r.tokens.length ≤ n + 1) :
    Yields (prefixHead inner) r fun e r' => r.Reads (Derives (.prefixed e.1)) r' ∧
      (startsPrefix r.current.kind = true → r'.tokens.length < r.tokens.length) ∧
      (Node.expression e.1).Tidy ∧ e.2 = e.1.shape := by
  have htidyName (x : Name) : (Node.expression (.name x)).Tidy :=
    Node.tidy_expression.2 (by simp [Expression.parts])
  unfold prefixHead
  simp only [yields_bind, yields_start, yields_kind]
  split
  next hk =>
    unfold name
    simp only [yields_bind, yields_pure, expect_takes hk]
    refine ⟨⟨h.taken, Reading.advances_taken r, fun _ => ?_⟩, fun _ => ?_, htidyName _, rfl⟩
    · rw [h.tokens_eq (by simp [hk])]
      exact .name (.mk hk)
    · exact h.length_taken (by simp [hk])
  next hk =>
    simp only [yields_bind, yields_take, yields_spanFrom, yields_pure]
    have h₁ := Reading.reads_taken h hk (by simp)
    have hlt := h.length_taken (by simp [hk])
    refine (hin.operand 0 _ h₁.sound (by omega)).imp ?_
    rintro e r₂ ⟨h₂, he⟩
    refine (expect_reads h₂.sound (by simp)).imp fun _ r₃ h₃ => ⟨?_, fun _ => ?_, ?_, rfl⟩
    · refine (h₁.comp (h₂.comp h₃)).imp ?_
      rintro i o ⟨_, hopen, _, he, hclose⟩
      exact .parenthesized hopen he hclose
    · exact Nat.lt_of_le_of_lt (h₂.comp h₃).length_le hlt
    · exact Node.tidy_expression.2 (by simpa [Expression.parts] using he)
  next hname hopen =>
    simp only [yields_bind, yields_span, yields_pure]
    refine (yields_report h _ _).imp fun _ r₁ h₁ => ?_
    refine (yields_supply h₁.sound h₁.loud _).imp ?_
    rintro t r₂ ⟨_, h₂⟩
    refine ⟨h₁.reads_comp (h₂.reads (Derives (.prefixed (.name ⟨"", t.span⟩)))), fun hstart => ?_,
      htidyName _, rfl⟩
    unfold startsPrefix at hstart
    split at hstart <;> simp_all

/-- One more index or call makes a longer prefix expression; without one it is closed. -/
theorem suffix_reads (hin : inner.Good n) (h : r.Sound) (hlen : r.tokens.length ≤ n + 1)
    (start : Nat) (e : Expression × Shape) (he : (Node.expression e.1).Tidy) :
    Yields (suffix inner start e) r fun x r' =>
      match x with
      | .inl e' => r.Reads (fun m o => ∀ i, Derives (.prefixed e.1) i m →
          Derives (.prefixed e'.1) i o) r' ∧ (Node.expression e'.1).Tidy ∧ e'.2 = e'.1.shape ∧
          r'.tokens.length < r.tokens.length
      | .inr e' => e' = e ∧ r' = r ∧ Closed r.tokens := by
  have hcall (m : Option Name) (es : List Expression) (s : Span)
      (hes : ∀ e ∈ es, (Node.expression e).Tidy) :
      (Node.expression (.call e.1 m es s)).Tidy :=
    Node.tidy_expression.2 (by simpa [Expression.parts] using ⟨he, hes⟩)
  have happly (hopens : opensArguments r.current.kind = true) :
      Yields (arguments inner) r fun es r' => r'.tokens.length < r.tokens.length ∧ ∀ s,
        r.Reads (fun m o => ∀ i, Derives (.prefixed e.1) i m →
          Derives (.prefixed (.call e.1 none es s)) i o) r' ∧
        (Node.expression (.call e.1 none es s)).Tidy := by
    refine (arguments_reads hin h hlen (.inr hopens)).imp ?_
    rintro es r₁ ⟨h₁, hes, hlt⟩
    refine ⟨hlt hopens, fun s => ⟨?_, hcall _ es s hes⟩⟩
    exact h₁.imp fun m o hargs i hprefixed => .call hprefixed hargs
  unfold suffix
  simp only [yields_bind, yields_kind]
  split
  next hk =>
    simp only [yields_bind, yields_take, yields_spanFrom, yields_pure]
    have h₁ := Reading.reads_taken h hk (by simp)
    have hlt := h.length_taken (by simp [hk])
    refine (name_reads h₁.sound).imp ?_
    rintro x r₂ ⟨h₂, _, _⟩
    refine ⟨?_, ?_, rfl, ?_⟩
    · refine (h₁.comp h₂).imp ?_
      rintro m o ⟨_, hdot, hx⟩ i hprefixed
      exact .dotted hprefixed hdot hx
    · exact Node.tidy_expression.2 (by simpa [Expression.parts] using he)
    · have := h₂.length_le
      omega
  next hk =>
    simp only [yields_bind, yields_take, yields_spanFrom, yields_pure]
    have h₁ := Reading.reads_taken h hk (by simp)
    have hlt := h.length_taken (by simp [hk])
    refine (hin.operand 0 _ h₁.sound (by omega)).imp ?_
    rintro x r₂ ⟨h₂, hx⟩
    refine (expect_reads h₂.sound (by simp)).imp fun _ r₃ h₃ => ⟨?_, ?_, rfl, ?_⟩
    · refine (h₁.comp (h₂.comp h₃)).imp ?_
      rintro m o ⟨_, hopen, _, hx, hclose⟩ i hprefixed
      exact .index hprefixed hopen hx hclose
    · exact Node.tidy_expression.2 (by simpa [Expression.parts] using ⟨he, hx⟩)
    · have := (h₂.comp h₃).length_le
      omega
  next hk =>
    simp only [yields_bind, yields_take, yields_spanFrom, yields_pure]
    have h₁ := Reading.reads_taken h hk (by simp)
    have hlt := h.length_taken (by simp [hk])
    refine (name_reads h₁.sound).imp ?_
    rintro x r₂ ⟨h₂, _, _⟩
    have hle := h₂.length_le
    refine (arguments_reads hin h₂.sound (by omega) (.inl (by omega))).imp ?_
    rintro es r₃ ⟨h₃, hes, _⟩
    refine ⟨?_, hcall _ es _ hes, rfl, ?_⟩
    · refine (h₁.comp (h₂.comp h₃)).imp ?_
      rintro m o ⟨_, hcolon, _, hx, hes⟩ i hprefixed
      exact .methodCall hprefixed hcolon hx hes
    · have := h₃.length_le
      omega
  iterate 3
    · rename_i hk
      simp only [yields_bind, yields_spanFrom, yields_pure]
      refine (happly (by rw [hk]; rfl)).imp ?_
      rintro es r₁ ⟨hlt, h₁⟩
      exact ⟨(h₁ _).1, (h₁ _).2, rfl, hlt⟩
  next hdot hbracket hcolon hopen hstring hbrace =>
    rw [yields_pure]
    refine ⟨rfl, rfl, fun t ht => ?_⟩
    cases ht
    unfold opensArguments
    split <;> simp_all

theorem prefixExpression_reads (hin : inner.Good n) (h : r.Sound)
    (hlen : r.tokens.length ≤ n + 1) :
    Yields (prefixExpression inner) r fun e r' => r.Reads (Derives (.prefixed e.1)) r' ∧
      (startsPrefix r.current.kind = true → r'.tokens.length < r.tokens.length) ∧
      Closed r'.tokens ∧ (Node.expression e.1).Tidy ∧ e.2 = e.1.shape := by
  unfold prefixExpression
  simp only [yields_bind, yields_start]
  refine (prefixHead_reads hin h hlen).imp fun head r₁ h₁ => ?_
  refine Yields.loop (fun e r' => r.Reads (Derives (.prefixed e.1)) r' ∧
    (startsPrefix r.current.kind = true → r'.tokens.length < r.tokens.length) ∧
    (Node.expression e.1).Tidy ∧ e.2 = e.1.shape) h₁ ?_
  rintro e r₂ ⟨h₂, hlt₂, he, hshape⟩
  have hle := h₂.length_le
  refine (suffix_reads hin h₂.sound (by omega) _ e he).imp fun x r₃ hx => ?_
  cases x with
  | inl e' =>
    obtain ⟨h₃, he', hshape', hlt⟩ := hx
    refine ⟨⟨(h₂.comp h₃).imp ?_, fun hstart => Nat.lt_trans hlt (hlt₂ hstart), he', hshape'⟩, hlt⟩
    rintro i o ⟨m, hprefixed, hmore⟩
    exact hmore i hprefixed
  | inr e' =>
    obtain ⟨rfl, rfl, hclosed⟩ := hx
    exact ⟨h₂, hlt₂, hclosed, he, hshape⟩

/-! ## Operators -/

theorem primary_reads (hin : inner.Good n) (h : r.Sound) (hlen : r.tokens.length ≤ n + 1) :
    Yields (primary inner) r fun e r' =>
      r.Reads (Derives (.expression e)) r' ∧ (Node.expression e).Tidy := by
  unfold primary
  simp only [yields_bind, yields_start, yields_kind]
  split
  iterate 6
    · rename_i hk
      exact literal_reads h (by rw [hk]; rfl)
  next hk =>
    simp only [yields_bind, yields_take, yields_spanFrom, yields_pure]
    refine ⟨?_, Node.tidy_expression.2 (by simp [Expression.parts])⟩
    exact (Reading.reads_taken h hk (by simp)).imp fun i o hio => .vararg hio
  next hk =>
    simp only [yields_bind, yields_take, yields_spanFrom, yields_pure]
    have h₁ := Reading.reads_taken h hk (by simp)
    have hlt := h.length_taken (by simp [hk])
    refine (functionBody_reads hin h₁.sound (by omega)).imp ?_
    rintro f r₂ ⟨h₂, hf⟩
    refine ⟨?_, ?_⟩
    · refine (h₁.comp h₂).imp ?_
      rintro i o ⟨m, hfunction, hf⟩
      exact .function hfunction hf
    · exact Node.tidy_expression.2 (by simpa [Expression.parts] using hf)
  next hk =>
    refine (table_reads hin h hlen hk).imp ?_
    rintro e r₁ ⟨fs, s, rfl, h₁, htidy, _⟩
    exact ⟨h₁.imp fun i o hio => .table hio, htidy⟩
  · simp only [yields_bind, yields_pure]
    refine (prefixExpression_reads hin h hlen).imp ?_
    rintro e r₁ ⟨h₁, _, hclosed, he, _⟩
    refine ⟨?_, he⟩
    exact ⟨h₁.sound, h₁.advances, fun hs => .prefixed (h₁.derives hs) hclosed⟩

theorem unary_reads (hin : inner.Good n) (h : r.Sound) (hlen : r.tokens.length ≤ n + 1) :
    Yields (unary inner) r fun e r' =>
      r.Reads (Derives (.expression e)) r' ∧ (Node.expression e).Tidy := by
  unfold unary
  simp only [yields_bind, yields_start, yields_kind]
  split
  next op hop =>
    have hk := UnaryOperator.kind_of_ofKind? hop
    simp only [yields_bind, yields_take, yields_spanFrom, yields_pure]
    have h₁ := Reading.reads_taken h hk op.kind_ne_endOfFile
    have hlt := h.length_taken (hk ▸ op.kind_ne_endOfFile)
    refine (hin.operand _ _ h₁.sound (by omega)).imp ?_
    rintro e r₂ ⟨h₂, he⟩
    refine ⟨?_, ?_⟩
    · refine (h₁.comp h₂).imp ?_
      rintro i o ⟨m, hop, he⟩
      exact .unary hop he
    · exact Node.tidy_expression.2 (by simpa [Expression.parts] using he)
  · exact primary_reads hin h hlen

theorem operand_reads (hin : inner.Good n) (h : r.Sound) (hlen : r.tokens.length ≤ n + 1)
    (parent : Nat) :
    Yields (operand inner parent) r fun e r' =>
      r.Reads (Derives (.expression e)) r' ∧ (Node.expression e).Tidy := by
  unfold operand
  simp only [yields_bind, yields_start]
  refine (unary_reads hin h hlen).imp fun left r₁ h₁ => ?_
  refine Yields.loop (fun e r' => r.Reads (Derives (.expression e)) r' ∧
    (Node.expression e).Tidy) h₁ ?_
  rintro e r₂ ⟨h₂, he⟩
  have hle := h₂.length_le
  unfold infixed
  simp only [yields_bind, yields_kind]
  split
  next op hop =>
    have hk := BinaryOperator.kind_of_ofKind? hop
    simp only [yields_ite, yields_bind, yields_take, yields_spanFrom, yields_pure]
    split
    · have h₃ := Reading.reads_taken h₂.sound hk op.kind_ne_endOfFile
      have hlt := h₂.sound.length_taken (hk ▸ op.kind_ne_endOfFile)
      refine (hin.operand _ _ h₃.sound (by omega)).imp ?_
      rintro e' r₄ ⟨h₄, he'⟩
      refine ⟨⟨?_, ?_⟩, ?_⟩
      · refine (h₂.comp (h₃.comp h₄)).imp ?_
        rintro i o ⟨_, he, _, hop, he'⟩
        exact .binary he hop he'
      · exact Node.tidy_expression.2 (by simpa [Expression.parts] using ⟨he, he'⟩)
      · have := h₄.length_le
        omega
    · exact ⟨h₂, he⟩
  · rw [yields_pure]
    exact ⟨h₂, he⟩

end Read
end Syntax
end LuaFront
