import LuaFront.Proofs.Syntax.Expression
import LuaFront.Proofs.Token.Lexer
import LuaFront.Syntax.Tree

/-!
# LuaFront.Proofs.Syntax.Statement

What reading statements, blocks and whole programs achieves, as for expressions. A label stands
behind the token its statement starts with and no later than the token after the statement, so the
labels of a block are written one behind the other even where their names are absent.

* `Nested.good_upTo`: the readers for constructs of depth `n` are good for `n` tokens, so no text
  is nested too deeply for its own readers.
* `Tree.parse_reads`: every text has a tree, whose blocks are labelled well; unless something was
  reported, the tree is a derivation of all tokens before the end of file.
-/

namespace LuaFront
namespace Syntax

open Text (Span)
open Grammar

namespace Read

variable {inner : Nested} {n : Nat} {r : Reading}

theorem blockToEnd_reads (hin : inner.Good n) (h : r.Sound) (hlen : r.tokens.length ≤ n) :
    Yields (blockToEnd inner) r fun b r' =>
      r.Reads (Relation.Comp (Derives (.block b)) (Terminal (.keyword .«end»))) r' ∧
        (Node.block b).Tidy := by
  unfold blockToEnd
  simp only [yields_bind, yields_pure]
  refine (hin.block r h hlen).imp ?_
  rintro b r₁ ⟨h₁, hb⟩
  exact (expect_reads h₁.sound (by simp)).imp fun _ r₂ h₂ => ⟨h₁.comp h₂, hb⟩

theorem results_reads (hin : inner.Good n) (h : r.Sound) (hlen : r.tokens.length ≤ n) :
    Yields (results inner) r fun es r' =>
      r.Reads (Derives (.results es)) r' ∧ ∀ e ∈ es, (Node.expression e).Tidy := by
  unfold results
  simp only [yields_bind, yields_kind, yields_ite, yields_pure]
  split
  · exact ⟨(Reading.Reads.refl h).imp fun i o hio => hio ▸ .noResults, by simp⟩
  · refine (expressions_reads hin h hlen).imp ?_
    rintro es r₁ ⟨h₁, hes⟩
    refine ⟨?_, hes⟩
    exact h₁.imp fun i o hio => .someResults hio

theorem result_reads (hin : inner.Good n) (h : r.Sound) (hlen : r.tokens.length ≤ n + 1)
    (hk : r.current.kind = .keyword .«return») :
    Yields (result inner) r fun x r' =>
      r.Reads (Derives (.result x)) r' ∧ (Node.result x).Tidy := by
  have h₁ := Reading.reads_taken h hk (by simp)
  have hlt := h.length_taken (by simp [hk])
  unfold result
  simp only [yields_bind, yields_start, expect_takes hk, yields_takeIf, yields_spanFrom,
    yields_pure]
  refine (results_reads hin h₁.sound (by omega)).imp ?_
  rintro es r₂ ⟨h₂, hes⟩
  split
  next hsemi =>
    refine ⟨?_, Node.tidy_result.2 hes⟩
    refine (h₁.comp (h₂.comp (Reading.reads_taken h₂.sound hsemi (by simp)))).imp ?_
    rintro i o ⟨_, hreturn, _, hes, hsemi⟩
    exact .resultClosed hreturn hes hsemi
  · refine ⟨(h₁.comp h₂).imp ?_, Node.tidy_result.2 hes⟩
    rintro i o ⟨_, hreturn, hes⟩
    exact .result hreturn hes

end Read

/-! ## Statements -/

namespace Reading

variable {r r' : Reading}

/-- What is known after a statement was read, or after what should have been one was skipped. -/
structure ReadsStatement (x : Option Statement) (r r' : Reading) : Prop where
  reads : r.Reads (fun i o => ∃ s, x = some s ∧ Derives (.statement s) i o) r'
  shorter : r'.tokens.length < r.tokens.length
  tidy : ∀ s ∈ x, (Node.statement s).Tidy
  labels : ∀ m ∈ labelNames x.toList, r.current.span.start < m.span.start ∧
    m.span.start ≤ r'.current.span.start ∧ m.IsWord

/-- A statement that is no label. -/
theorem Reads.statement {s : Statement} (h : r.Reads (Derives (.statement s)) r')
    (hlt : r'.tokens.length < r.tokens.length) (ht : (Node.statement s).Tidy)
    (hlabel : labelNames [s] = []) : ReadsStatement (some s) r r' where
  reads := h.imp fun i o hio => ⟨s, rfl, hio⟩
  shorter := hlt
  tidy := by simpa using ht
  labels := by simp [hlabel]

end Reading

namespace Read

variable {inner : Nested} {n : Nat} {r : Reading}

theorem elseIfs_reads (hin : inner.Good n) (h : r.Sound) (hlen : r.tokens.length ≤ n) :
    Yields (elseIfs inner) r fun es r' =>
      r.Reads (Derives (.elseIfs es)) r' ∧ ∀ e ∈ es, (Node.elseIf e).Tidy := by
  unfold elseIfs
  refine Yields.loop
    (fun es r' => r.Reads (fun i m => ∀ gs o, Derives (.elseIfs gs) m o →
      Derives (.elseIfs (es ++ gs)) i o) r' ∧ ∀ e ∈ es, (Node.elseIf e).Tidy)
    ⟨(Reading.Reads.refl h).imp fun i m him gs o hg => him ▸ hg, by simp⟩ ?_
  rintro es r₁ ⟨h₁, hes⟩
  have hle₁ := h₁.length_le
  simp only [yields_bind, yields_kind, yields_ite, yields_pure]
  split
  next hk =>
    have h₂ := Reading.reads_taken h₁.sound hk (by simp)
    have hlt := h₁.sound.length_taken (by simp [hk])
    simp only [elseIf, yields_bind, yields_start, yields_take, yields_spanFrom, yields_pure]
    refine (hin.operand 0 _ h₂.sound (by omega)).imp ?_
    rintro c r₃ ⟨h₃, hc⟩
    refine (expect_reads h₃.sound (by simp)).imp fun _ r₄ h₄ => ?_
    have hle₄ := (h₃.comp h₄).length_le
    refine (hin.block r₄ h₄.sound (by omega)).imp ?_
    rintro b r₅ ⟨h₅, hb⟩
    refine ⟨⟨?_, ?_⟩, ?_⟩
    · refine (h₁.comp (h₂.comp (h₃.comp (h₄.comp h₅)))).imp ?_
      rintro i m ⟨_, hes, _, helseif, _, hc, _, hthen, hb⟩ gs o hg
      simpa using hes (_ :: gs) o (.moreElseIfs helseif hc hthen hb hg)
    · have he (s : Span) : (Node.elseIf ⟨c, b, s⟩).Tidy := Node.tidy_elseIf.2 ⟨hc, hb⟩
      simpa [or_imp, forall_and] using ⟨hes, he _⟩
    · have := h₅.length_le
      omega
  · refine ⟨h₁.imp fun i o hio => ?_, hes⟩
    simpa using hio [] o .noElseIfs

theorem otherwise_reads (hin : inner.Good n) (h : r.Sound) (hlen : r.tokens.length ≤ n) :
    Yields (otherwise inner) r fun b r' =>
      r.Reads (Derives (.otherwise b)) r' ∧ ∀ x ∈ b, (Node.otherwise x).Tidy := by
  unfold otherwise
  simp only [yields_bind, yields_takeIf, yields_ite, yields_map, yields_pure]
  split
  next hk =>
    have h₁ := Reading.reads_taken h hk (by simp)
    have hle := h₁.length_le
    simp only [if_true]
    refine (hin.block _ h₁.sound (by omega)).imp ?_
    rintro b r₂ ⟨h₂, hb⟩
    refine ⟨?_, ?_⟩
    · refine (h₁.comp h₂).imp ?_
      rintro i o ⟨m, helse, hb⟩
      exact .otherwise helse hb
    · simpa using Node.tidy_otherwise.2 hb
  · simp only [Bool.false_eq_true, if_false]
    exact ⟨(Reading.Reads.refl h).imp fun i o hio => hio ▸ .noOtherwise, by simp⟩

theorem ifThen_reads (hin : inner.Good n) (h : r.Sound) (hlen : r.tokens.length ≤ n + 1)
    (hk : r.current.kind = .keyword .«if») :
    Yields (ifThen inner) r fun s r' => r.ReadsStatement (some s) r' := by
  have h₁ := Reading.reads_taken h hk (by simp)
  have hlt := h.length_taken (by simp [hk])
  unfold ifThen
  simp only [yields_bind, yields_start, expect_takes hk]
  refine (hin.operand 0 _ h₁.sound (by omega)).imp ?_
  rintro c r₂ ⟨h₂, hc⟩
  refine (expect_reads h₂.sound (by simp)).imp fun _ r₃ h₃ => ?_
  have hle₃ := (h₂.comp h₃).length_le
  refine (hin.block r₃ h₃.sound (by omega)).imp ?_
  rintro b r₄ ⟨h₄, hb⟩
  have hle₄ := h₄.length_le
  refine (elseIfs_reads hin h₄.sound (by omega)).imp ?_
  rintro es r₅ ⟨h₅, hes⟩
  have hle₅ := h₅.length_le
  refine (otherwise_reads hin h₅.sound (by omega)).imp ?_
  rintro o r₆ ⟨h₆, ho⟩
  simp only [yields_spanFrom, yields_pure]
  refine (expect_reads h₆.sound (by simp)).imp fun _ r₇ h₇ => ?_
  have hall := h₂.comp (h₃.comp (h₄.comp (h₅.comp (h₆.comp h₇))))
  refine Reading.Reads.statement ((h₁.comp hall).imp ?_) ?_ ?_ rfl
  · rintro i o ⟨_, hif, _, hc, _, hthen, _, hb, _, hes, _, ho, hend⟩
    exact .ifThen hif hc hthen hb hes ho hend
  · have := hall.length_le
    omega
  · refine Node.tidy_statement.2 ?_
    simpa [Statement.parts, or_imp, forall_and] using ⟨hc, hb, hes, ho⟩

theorem step_reads (hin : inner.Good n) (h : r.Sound) (hlen : r.tokens.length ≤ n) :
    Yields (step inner) r fun e r' =>
      r.Reads (Derives (.step e)) r' ∧ ∀ x ∈ e, (Node.expression x).Tidy := by
  unfold step
  simp only [yields_bind, yields_takeIf, yields_ite, yields_map, yields_pure]
  split
  next hk =>
    have h₁ := Reading.reads_taken h hk (by simp)
    have hle := h₁.length_le
    simp only [if_true]
    refine (hin.operand 0 _ h₁.sound (by omega)).imp ?_
    rintro e r₂ ⟨h₂, he⟩
    refine ⟨?_, by simpa using he⟩
    refine (h₁.comp h₂).imp ?_
    rintro i o ⟨m, hcomma, he⟩
    exact .step hcomma he
  · simp only [Bool.false_eq_true, if_false]
    exact ⟨(Reading.Reads.refl h).imp fun i o hio => hio ▸ .noStep, by simp⟩

/-- Names behind commas, after the first one. -/
theorem names_reads (h : r.Sound) :
    Yields (following (.sign .comma) name) r fun ns r' =>
      r.Reads (Following (.sign .comma) Word ns) r' := by
  refine (following_reads (P := fun _ => True) (n := r.tokens.length) (by simp)
    (fun r' h' _ => (name_reads h').imp fun x r'' hx => ⟨hx.1, trivial⟩) h (by omega)).imp ?_
  exact fun ns r' hns => hns.1

theorem forLoop_reads (hin : inner.Good n) (h : r.Sound) (hlen : r.tokens.length ≤ n + 1)
    (hk : r.current.kind = .keyword .«for») :
    Yields (forLoop inner) r fun s r' => r.ReadsStatement (some s) r' := by
  have h₁ := Reading.reads_taken h hk (by simp)
  have hlt := h.length_taken (by simp [hk])
  unfold forLoop
  simp only [yields_bind, yields_start, expect_takes hk, yields_takeIf]
  refine (name_reads h₁.sound).imp ?_
  rintro x r₂ ⟨h₂, _, _⟩
  have hle₂ := h₂.length_le
  split
  next hequals =>
    have h₃ := Reading.reads_taken h₂.sound hequals (by simp)
    have hle₃ := h₃.length_le
    simp only [if_true, yields_bind, yields_spanFrom, yields_pure]
    refine (hin.operand 0 _ h₃.sound (by omega)).imp ?_
    rintro a r₄ ⟨h₄, ha⟩
    refine (expect_reads h₄.sound (by simp)).imp fun _ r₅ h₅ => ?_
    have hle₅ := (h₄.comp h₅).length_le
    refine (hin.operand 0 _ h₅.sound (by omega)).imp ?_
    rintro l r₆ ⟨h₆, hl⟩
    have hle₆ := h₆.length_le
    refine (step_reads hin h₆.sound (by omega)).imp ?_
    rintro st r₇ ⟨h₇, hst⟩
    refine (expect_reads h₇.sound (by simp)).imp fun _ r₈ h₈ => ?_
    have hle₈ := (h₇.comp h₈).length_le
    refine (blockToEnd_reads hin h₈.sound (by omega)).imp ?_
    rintro b r₉ ⟨h₉, hb⟩
    have hle₉ := h₉.length_le
    refine Reading.Reads.statement ((h₁.comp (h₂.comp (h₃.comp (h₄.comp (h₅.comp (h₆.comp
      (h₇.comp (h₈.comp h₉)))))))).imp ?_) (by omega) ?_ rfl
    · rintro i o ⟨_, hfor, _, hx, _, hequals, _, ha, _, hcomma, _, hl, _, hst, _, hdo, _, hb, hend⟩
      exact .numericFor hfor hx hequals ha hcomma hl hst hdo hb hend
    · refine Node.tidy_statement.2 ?_
      simpa [Statement.parts, or_imp, forall_and, Node.tidy_name] using ⟨ha, hl, hst, hb⟩
  · simp only [Bool.false_eq_true, if_false, yields_bind, yields_spanFrom, yields_pure]
    refine (names_reads h₂.sound).imp fun ns r₃ h₃ => ?_
    refine (expect_reads h₃.sound (by simp)).imp fun _ r₄ h₄ => ?_
    have hle₄ := (h₃.comp h₄).length_le
    refine (expressions_reads hin h₄.sound (by omega)).imp ?_
    rintro es r₅ ⟨h₅, hes⟩
    refine (expect_reads h₅.sound (by simp)).imp fun _ r₆ h₆ => ?_
    have hle₆ := (h₅.comp h₆).length_le
    refine (blockToEnd_reads hin h₆.sound (by omega)).imp ?_
    rintro b r₇ ⟨h₇, hb⟩
    have hle₇ := h₇.length_le
    refine Reading.Reads.statement ((h₁.comp (h₂.comp (h₃.comp (h₄.comp (h₅.comp (h₆.comp
      h₇)))))).imp ?_) (by omega) ?_ rfl
    · rintro i o ⟨_, hfor, _, hx, _, hns, _, hin, _, hes, _, hdo, _, hb, hend⟩
      exact .genericFor hfor ⟨_, hx, hns⟩ hin hes hdo hb hend
    · refine Node.tidy_statement.2 ?_
      simpa [Statement.parts, or_imp, forall_and, Node.tidy_name] using ⟨hes, hb⟩

theorem functionName_reads (h : r.Sound) :
    Yields functionName r fun f r' => r.Reads (DeclaredName f) r' := by
  unfold functionName method
  simp only [yields_bind, yields_start, yields_takeIf, yields_ite, yields_map, yields_spanFrom,
    yields_pure]
  refine (separated_reads (P := fun _ => True) (n := r.tokens.length) (by simp)
    (fun r' h' _ => (name_reads h').imp fun x r'' hx => ⟨hx.1, trivial⟩) h (by omega)).imp ?_
  rintro path r₁ ⟨h₁, _⟩
  split
  next hk =>
    simp only [if_true]
    have h₂ := Reading.reads_taken h₁.sound hk (by simp)
    refine (name_reads h₂.sound).imp ?_
    rintro x r₃ ⟨h₃, _, _⟩
    refine (h₁.comp (h₂.comp h₃)).imp ?_
    rintro i o ⟨_, hpath, _, hcolon, hx⟩
    exact .method hpath hcolon hx
  · simp only [Bool.false_eq_true, if_false]
    exact h₁.imp fun i o hio => .plain hio

theorem function_reads (hin : inner.Good n) (h : r.Sound) (hlen : r.tokens.length ≤ n + 1)
    (hk : r.current.kind = .keyword .function) :
    Yields (function inner) r fun s r' => r.ReadsStatement (some s) r' := by
  have h₁ := Reading.reads_taken h hk (by simp)
  have hlt := h.length_taken (by simp [hk])
  unfold function
  simp only [yields_bind, yields_start, expect_takes hk, yields_spanFrom, yields_pure]
  refine (functionName_reads h₁.sound).imp fun x r₂ h₂ => ?_
  have hle₂ := h₂.length_le
  refine (functionBody_reads hin h₂.sound (by omega)).imp ?_
  rintro f r₃ ⟨h₃, hf⟩
  have hle₃ := h₃.length_le
  refine Reading.Reads.statement ((h₁.comp (h₂.comp h₃)).imp ?_) (by omega) ?_ rfl
  · rintro i o ⟨_, hfunction, _, hx, hf⟩
    exact .functionStatement hfunction hx hf
  · refine Node.tidy_statement.2 ?_
    simpa [Statement.parts, Node.tidy_functionName] using hf

theorem declaration_reads (h : r.Sound) :
    Yields declaration r fun d r' => r.Reads (Declaration d) r' := by
  unfold declaration attrib
  simp only [yields_bind, yields_start, yields_takeIf, yields_spanFrom, yields_pure]
  refine (name_reads h).imp ?_
  rintro x r₁ ⟨h₁, _, _⟩
  split
  next hk =>
    simp only [if_true, yields_bind, yields_pure]
    have h₂ := Reading.reads_taken h₁.sound hk (by simp)
    refine (name_reads h₂.sound).imp ?_
    rintro a r₃ ⟨h₃, _, _⟩
    refine (expect_reads h₃.sound (by simp)).imp fun _ r₄ h₄ =>
      (h₁.comp (h₂.comp (h₃.comp h₄))).imp ?_
    rintro i o ⟨_, hx, _, hless, _, ha, hgreater⟩
    exact .attributed hx hless ha hgreater
  · simp only [Bool.false_eq_true, if_false, yields_pure]
    exact h₁.imp fun i o hio => .plain hio

theorem initializer_reads (hin : inner.Good n) (h : r.Sound) (hlen : r.tokens.length ≤ n) :
    Yields (initializer inner) r fun es r' =>
      r.Reads (Derives (.initializer es)) r' ∧ ∀ e ∈ es, (Node.expression e).Tidy := by
  unfold initializer
  simp only [yields_bind, yields_takeIf, yields_ite, yields_pure]
  split
  next hk =>
    have h₁ := Reading.reads_taken h hk (by simp)
    have hle := h₁.length_le
    simp only [if_true]
    refine (expressions_reads hin h₁.sound (by omega)).imp ?_
    rintro es r₂ ⟨h₂, hes⟩
    refine ⟨?_, hes⟩
    refine (h₁.comp h₂).imp ?_
    rintro i o ⟨m, hequals, hes⟩
    exact .initializer hequals hes
  · simp only [Bool.false_eq_true, if_false]
    exact ⟨(Reading.Reads.refl h).imp fun i o hio => hio ▸ .noInitializer, by simp⟩

theorem localStatement_reads (hin : inner.Good n) (h : r.Sound) (hlen : r.tokens.length ≤ n + 1)
    (hk : r.current.kind = .keyword .«local») :
    Yields (localStatement inner) r fun s r' => r.ReadsStatement (some s) r' := by
  have h₁ := Reading.reads_taken h hk (by simp)
  have hlt := h.length_taken (by simp [hk])
  unfold localStatement
  simp only [yields_bind, yields_start, expect_takes hk, yields_takeIf]
  split
  next hfunction =>
    simp only [if_true, yields_bind, yields_spanFrom, yields_pure]
    have h₂ := Reading.reads_taken h₁.sound hfunction (by simp)
    refine (name_reads h₂.sound).imp ?_
    rintro x r₃ ⟨h₃, _, _⟩
    have hle₃ := (h₂.comp h₃).length_le
    refine (functionBody_reads hin h₃.sound (by omega)).imp ?_
    rintro f r₄ ⟨h₄, hf⟩
    have hle₄ := h₄.length_le
    refine Reading.Reads.statement ((h₁.comp (h₂.comp (h₃.comp h₄))).imp ?_) (by omega) ?_ rfl
    · rintro i o ⟨_, hlocal, _, hfunction, _, hx, hf⟩
      exact .localFunction hlocal hfunction hx hf
    · refine Node.tidy_statement.2 ?_
      simpa [Statement.parts, Node.tidy_name] using hf
  · simp only [Bool.false_eq_true, if_false, yields_bind, yields_spanFrom, yields_pure]
    refine (separated_reads (P := fun _ => True) (n := r.taken.tokens.length) (by simp)
      (fun r' h' _ => (declaration_reads h').imp fun x r'' hx => ⟨hx, trivial⟩) h₁.sound
      (by omega)).imp ?_
    rintro ds r₂ ⟨h₂, _⟩
    have hle₂ := h₂.length_le
    refine (initializer_reads hin h₂.sound (by omega)).imp ?_
    rintro es r₃ ⟨h₃, hes⟩
    have hle₃ := h₃.length_le
    refine Reading.Reads.statement ((h₁.comp (h₂.comp h₃)).imp ?_) (by omega) ?_ rfl
    · rintro i o ⟨_, hlocal, _, hds, hes⟩
      exact .declare hlocal hds hes
    · refine Node.tidy_statement.2 ?_
      simpa [Statement.parts, or_imp, forall_and, Node.tidy_declaration] using hes

/-! ## Calls and assignments -/

/-- What is no variable is reported as a target. -/
theorem checkTarget_reads {e : Expression} {r₀ : Reading} (h : r₀.Reads (Derives (.prefixed e)) r) :
    Yields (checkTarget e) r fun t r' => t = e ∧ r₀.Reads (Derives (.target e)) r' ∧
      r'.tokens.length ≤ r.tokens.length := by
  unfold checkTarget
  simp only [yields_bind, yields_ite, yields_pure]
  split
  · refine (yields_report h.sound _ _).imp fun _ r₁ h₁ => ⟨trivial, ⟨h₁.sound, ?_, fun hs => ?_⟩, ?_⟩
    · exact h.advances.trans h₁.toRests.reads.advances
    · exact absurd hs h₁.loud
    · exact h₁.toRests.reads.length_le
  next hvariable =>
    exact ⟨trivial, h.imp fun i o hio => .target hio (by simpa using hvariable), Nat.le_refl _⟩

theorem target_reads (hin : inner.Good n) (h : r.Sound) (hlen : r.tokens.length ≤ n + 1) :
    Yields (do checkTarget (← prefixExpression inner).1) r fun e r' =>
      r.Reads (Derives (.target e)) r' ∧ (Node.expression e).Tidy := by
  simp only [yields_bind]
  refine (prefixExpression_reads hin h hlen).imp ?_
  rintro e r₁ ⟨h₁, _, _, he, _⟩
  refine (checkTarget_reads h₁).imp ?_
  rintro _ r₂ ⟨rfl, h₂, _⟩
  exact ⟨h₂, he⟩

end Read

theorem Grammar.Following.targets {es : List Expression} {i o : List Token}
    (h : Following (.sign .comma) (fun e => Derives (.target e)) es i o) :
    Derives (.moreTargets es) i o := by
  induction h with
  | nil => exact .noTargets
  | cons hitem _ ih =>
    obtain ⟨m, hcomma, he⟩ := hitem
    exact .moreTargets hcomma he ih

namespace Read

variable {inner : Nested} {n : Nat} {r : Reading}

/-- A call, or an expression that is assigned to. -/
theorem callOrAssign_reads (hin : inner.Good n) (h : r.Sound) (hlen : r.tokens.length ≤ n + 1)
    (hk : startsPrefix r.current.kind = true) :
    Yields (callOrAssign inner) r fun s r' => r.ReadsStatement (some s) r' := by
  unfold callOrAssign
  simp only [yields_bind, yields_start]
  refine (prefixExpression_reads hin h hlen).imp ?_
  rintro ⟨e, shape⟩ r₁ ⟨h₁, hlt, hclosed, he, hshape⟩
  simp only [yields_ite, yields_bind, yields_spanFrom, yields_pure]
  have hlt₁ := hlt hk
  split
  next hcall =>
    obtain ⟨f, m, es, s, rfl⟩ : ∃ f m es s, e = .call f m es s := by
      cases e <;> simp_all [Expression.shape]
    refine Reading.Reads.statement ⟨h₁.sound, h₁.advances, fun hs => ?_⟩ hlt₁ ?_ rfl
    · exact .callStatement (h₁.derives hs) hclosed
    · exact Node.tidy_statement.2 (by simpa [Statement.parts] using he)
  · refine (checkTarget_reads h₁).imp ?_
    rintro _ r₂ ⟨rfl, h₂, hle₂⟩
    have htarget (r' : Reading) (h' : r'.Sound) (hlen' : r'.tokens.length ≤ n) :=
      target_reads hin h' (Nat.le_succ_of_le hlen')
    refine (following_reads (by simp) htarget h₂.sound (by omega)).imp ?_
    rintro ts r₃ ⟨h₃, hts⟩
    refine (expect_reads h₃.sound (by simp)).imp fun _ r₄ h₄ => ?_
    have hle₄ := (h₃.comp h₄).length_le
    refine (expressions_reads hin h₄.sound (by omega)).imp ?_
    rintro es r₅ ⟨h₅, hes⟩
    have hle₅ := h₅.length_le
    refine Reading.Reads.statement ((h₂.comp (h₃.comp (h₄.comp h₅))).imp ?_) (by omega) ?_ rfl
    · rintro i o ⟨_, he, _, hts, _, hequals, hes⟩
      exact .assign he hts.targets hequals hes
    · refine Node.tidy_statement.2 ?_
      simpa [Statement.parts, or_imp, forall_and] using ⟨he, hts, hes⟩

/-! ## Any statement -/

/-- Skipping drops tokens and derives nothing. -/
theorem skipToStatement_reads (h : r.Sound) :
    Yields skipToStatement r fun _ r' => r.Reads (fun _ _ => True) r' := by
  unfold skipToStatement
  refine Yields.loop (fun _ r' => r.Reads (fun _ _ => True) r')
    ((Reading.Reads.refl h).imp fun _ _ _ => trivial) fun _ r₁ h₁ => ?_
  simp only [yields_bind, yields_kind, yields_ite, yields_take, yields_pure]
  split
  · exact h₁
  next hk =>
    have hne : r₁.current.kind ≠ .endOfFile := by
      intro he
      rw [he] at hk
      exact hk rfl
    refine ⟨⟨h₁.sound.taken, h₁.advances.trans (Reading.advances_taken r₁), fun _ => trivial⟩, ?_⟩
    exact h₁.sound.length_taken hne

/-- A statement may start anywhere but at the end of the file. -/
theorem statement_reads (hin : inner.Good n) (h : r.Sound) (hlen : r.tokens.length ≤ n + 1)
    (hne : r.current.kind ≠ .endOfFile) :
    Yields (statement inner) r fun x r' => r.ReadsStatement x r' := by
  have hlt := h.length_taken hne
  unfold statement
  simp only [yields_bind, yields_start, yields_kind]
  split
  next hk =>
    simp only [yields_map]
    exact ifThen_reads hin h hlen hk
  next hk =>
    simp only [yields_map]
    exact forLoop_reads hin h hlen hk
  next hk =>
    simp only [yields_map]
    exact function_reads hin h hlen hk
  next hk =>
    simp only [yields_map]
    exact localStatement_reads hin h hlen hk
  next hk =>
    simp only [yields_map]
    exact callOrAssign_reads hin h hlen (by rw [hk]; rfl)
  next hk =>
    simp only [yields_map]
    exact callOrAssign_reads hin h hlen (by rw [hk]; rfl)
  next hk =>
    simp only [yields_bind, yields_take, yields_spanFrom, yields_pure]
    have h₁ := Reading.reads_taken h hk (by simp)
    refine (hin.operand 0 _ h₁.sound (by omega)).imp ?_
    rintro c r₂ ⟨h₂, hc⟩
    refine (expect_reads h₂.sound (by simp)).imp fun _ r₃ h₃ => ?_
    have hle₃ := (h₂.comp h₃).length_le
    refine (blockToEnd_reads hin h₃.sound (by omega)).imp ?_
    rintro b r₄ ⟨h₄, hb⟩
    have hle₄ := h₄.length_le
    refine Reading.Reads.statement ((h₁.comp (h₂.comp (h₃.comp h₄))).imp ?_) (by omega) ?_ rfl
    · rintro i o ⟨_, hwhile, _, hc, _, hdo, _, hb, hend⟩
      exact .whileDo hwhile hc hdo hb hend
    · exact Node.tidy_statement.2 (by simpa [Statement.parts] using ⟨hc, hb⟩)
  next hk =>
    simp only [yields_bind, yields_take, yields_spanFrom, yields_pure]
    have h₁ := Reading.reads_taken h hk (by simp)
    refine (hin.block _ h₁.sound (by omega)).imp ?_
    rintro b r₂ ⟨h₂, hb⟩
    refine (expect_reads h₂.sound (by simp)).imp fun _ r₃ h₃ => ?_
    have hle₃ := (h₂.comp h₃).length_le
    refine (hin.operand 0 _ h₃.sound (by omega)).imp ?_
    rintro c r₄ ⟨h₄, hc⟩
    have hle₄ := h₄.length_le
    refine Reading.Reads.statement ((h₁.comp (h₂.comp (h₃.comp h₄))).imp ?_) (by omega) ?_ rfl
    · rintro i o ⟨_, hrepeat, _, hb, _, huntil, hc⟩
      exact .repeatUntil hrepeat hb huntil hc
    · exact Node.tidy_statement.2 (by simpa [Statement.parts] using ⟨hb, hc⟩)
  next hk =>
    simp only [yields_bind, yields_take, yields_spanFrom, yields_pure]
    have h₁ := Reading.reads_taken h hk (by simp)
    refine (blockToEnd_reads hin h₁.sound (by omega)).imp ?_
    rintro b r₂ ⟨h₂, hb⟩
    have hle₂ := h₂.length_le
    refine Reading.Reads.statement ((h₁.comp h₂).imp ?_) (by omega) ?_ rfl
    · rintro i o ⟨_, hdo, _, hb, hend⟩
      exact .doBlock hdo hb hend
    · exact Node.tidy_statement.2 (by simpa [Statement.parts] using hb)
  next hk =>
    simp only [yields_bind, yields_take, yields_spanFrom, yields_pure]
    have h₁ := Reading.reads_taken h hk (by simp)
    have hstart := h.start_lt_taken hne
    refine (name_reads h₁.sound).imp ?_
    rintro x r₂ ⟨h₂, hword, hx⟩
    refine (expect_reads h₂.sound (by simp)).imp fun _ r₃ h₃ => ?_
    have hle₃ := (h₂.comp h₃).length_le
    have hstart₃ := h₁.sound.start_le (h₂.comp h₃).advances
    refine ⟨(h₁.comp (h₂.comp h₃)).imp ?_, by omega, ?_, ?_⟩
    · rintro i o ⟨_, hopen, _, hx, hclose⟩
      exact ⟨_, rfl, .label hopen hx hclose⟩
    · simpa using Node.tidy_statement.2 (by simp [Statement.parts, Node.tidy_name])
    · simp only [labelNames, Option.toList_some, List.mem_singleton, forall_eq]
      exact ⟨by omega, by omega, hword⟩
  next hk =>
    simp only [yields_bind, yields_take, yields_spanFrom, yields_pure]
    have h₁ := Reading.reads_taken h hk (by simp)
    refine (name_reads h₁.sound).imp ?_
    rintro x r₂ ⟨h₂, _, _⟩
    have hle₂ := h₂.length_le
    refine Reading.Reads.statement ((h₁.comp h₂).imp ?_) (by omega) ?_ rfl
    · rintro i o ⟨_, hgoto, hx⟩
      exact .goto hgoto hx
    · exact Node.tidy_statement.2 (by simp [Statement.parts, Node.tidy_name])
  next hk =>
    simp only [yields_bind, yields_take, yields_spanFrom, yields_pure]
    refine Reading.Reads.statement ((Reading.reads_taken h hk (by simp)).imp ?_) hlt ?_ rfl
    · exact fun i o hio => .breakLoop hio
    · exact Node.tidy_statement.2 (by simp [Statement.parts])
  · simp only [yields_bind, yields_span, yields_take, yields_pure]
    refine (yields_report h _ _).imp fun _ r₁ h₁ => ?_
    refine (skipToStatement_reads h₁.sound.taken).imp fun _ r₂ h₂ => ?_
    have hlt₁ := h₁.sound.length_taken (h₁.current ▸ hne)
    have hle₂ := h₂.length_le
    have hadvances := (Reading.advances_taken r₁).trans h₂.advances
    refine ⟨h₁.reads_comp (G := fun _ _ => True) ⟨h₂.sound, hadvances, fun _ => trivial⟩, ?_,
      by simp, by simp [labelNames]⟩
    rw [h₁.tokens_eq] at hlt₁
    omega

/-- A statement consumes a token, so none is ever dropped to make progress. -/
theorem statementOrSkip_reads (hin : inner.Good n) (h : r.Sound) (hlen : r.tokens.length ≤ n + 1)
    (hne : r.current.kind ≠ .endOfFile) :
    Yields (statementOrSkip inner) r fun x r' => r.ReadsStatement x r' := by
  unfold statementOrSkip
  simp only [yields_bind, yields_start, yields_kind]
  refine (statement_reads hin h hlen hne).imp fun x r₁ h₁ => ?_
  have hstart := h.start_lt h₁.reads.advances h₁.shorter
  rw [if_neg (by omega), yields_pure]
  exact h₁

end Read

/-! ## Blocks and programs -/

namespace Reading

/-- Statements that were read in a row, from `r` to `r'`. -/
structure ReadsStatements (ss : List Statement) (r r' : Reading) : Prop where
  reads : r.Reads (fun i m => ∀ rest o, Derives (.statements rest) m o →
    Derives (.statements (ss ++ rest)) i o) r'
  tidy : ∀ s ∈ ss, (Node.statement s).Tidy
  increasing : (labelNames ss).Pairwise (·.span.start < ·.span.start)
  labels : ∀ m ∈ labelNames ss, r.current.span.start < m.span.start ∧
    m.span.start ≤ r'.current.span.start ∧ m.IsWord

structure ReadsBlock (b : Block) (r r' : Reading) : Prop where
  reads : r.Reads (Derives (.block b)) r'
  tidy : (Node.block b).Tidy
  labels : ∀ m ∈ labelNames b.statements, r.current.span.start < m.span.start ∧
    m.span.start ≤ r'.current.span.start

variable {r r₁ r₂ : Reading} {ss : List Statement} {x : Option Statement}

theorem ReadsStatements.nil (h : r.Sound) : ReadsStatements [] r r where
  reads := (Reads.refl h).imp fun _ _ him _ _ hrest => him ▸ hrest
  tidy := by simp
  increasing := .nil
  labels := by simp [labelNames]

/-- A semicolon adds no statement. -/
theorem ReadsStatements.semicolon (h₁ : ReadsStatements ss r r₁)
    (hk : r₁.current.kind = .sign .semicolon) : ReadsStatements ss r r₁.taken where
  reads := by
    refine (h₁.reads.comp (reads_taken h₁.reads.sound hk (by simp))).imp ?_
    rintro i o ⟨m, hss, hsemi⟩ rest o' hrest
    exact hss rest o' (.semicolon hsemi hrest)
  tidy := h₁.tidy
  increasing := h₁.increasing
  labels := by
    have hle := h₁.reads.sound.start_le (advances_taken r₁)
    intro m hm
    obtain ⟨hlo, hhi, hword⟩ := h₁.labels m hm
    exact ⟨hlo, by omega, hword⟩

/-- The labels of a further statement stand behind those before it. -/
theorem ReadsStatements.snoc (h : r.Sound) (h₁ : ReadsStatements ss r r₁)
    (h₂ : ReadsStatement x r₁ r₂) : ReadsStatements (ss ++ x.toList) r r₂ where
  reads := by
    refine (h₁.reads.comp h₂.reads).imp ?_
    rintro i o ⟨m, hss, s, rfl, hs⟩ rest o' hrest
    simpa using hss (s :: rest) o' (.moreStatements hs hrest)
  tidy := by
    intro s hs
    rcases List.mem_append.1 hs with hs | hs
    · exact h₁.tidy s hs
    · exact h₂.tidy s (Option.mem_toList.1 hs)
  increasing := by
    rw [labelNames_append, List.pairwise_append]
    refine ⟨h₁.increasing, ?_, fun a ha b hb => ?_⟩
    · cases x with
      | none => exact .nil
      | some s => cases s <;> simp [labelNames]
    · exact Nat.lt_of_le_of_lt (h₁.labels a ha).2.1 (h₂.labels b hb).1
  labels := by
    have hle₁ := h.start_le h₁.reads.advances
    have hle₂ := h₁.reads.sound.start_le h₂.reads.advances
    intro m hm
    rw [labelNames_append, List.mem_append] at hm
    rcases hm with hm | hm
    · obtain ⟨hlo, hhi, hword⟩ := h₁.labels m hm
      exact ⟨hlo, by omega, hword⟩
    · obtain ⟨hlo, hhi, hword⟩ := h₂.labels m hm
      exact ⟨by omega, hhi, hword⟩

/-- A block of such statements and of a return that ends it. -/
theorem ReadsStatements.block (h₁ : ReadsStatements ss r r₁) {result : Option Return}
    {G : List Token → List Token → Prop} (h₂ : r₁.Reads G r₂)
    (hresult : ∀ x ∈ result, (Node.result x).Tidy) {s : Span}
    (hblock : ∀ i m o, Derives (.statements ss) i m → G m o →
      Derives (.block ⟨ss, result, s⟩) i o) : ReadsBlock ⟨ss, result, s⟩ r r₂ where
  reads := by
    refine (h₁.reads.comp h₂).imp ?_
    rintro i o ⟨m, hss, hrest⟩
    exact hblock i m o (by simpa using hss [] m .noStatements) hrest
  tidy := by
    refine Node.tidy_iff.2 ⟨⟨h₁.increasing, fun m hm => (h₁.labels m hm).2.2⟩, ?_⟩
    simpa [Node.children, Block.parts, or_imp, forall_and] using ⟨h₁.tidy, hresult⟩
  labels := by
    have hle := h₁.reads.sound.start_le h₂.advances
    intro m hm
    obtain ⟨hlo, hhi, _⟩ := h₁.labels m hm
    exact ⟨hlo, by omega⟩

end Reading

namespace Read

variable {inner : Nested} {n : Nat} {r : Reading}

theorem block_reads (hin : inner.Good n) (h : r.Sound) (hlen : r.tokens.length ≤ n + 1) :
    Yields (block inner) r fun b r' => r.ReadsBlock b r' := by
  unfold block
  simp only [yields_bind, yields_start]
  refine Yields.imp (Yields.loop (Q := fun x r' => ∀ s, r.ReadsBlock ⟨x.1, x.2, s⟩ r')
    (fun ss r' => r.ReadsStatements ss r') (.nil h) fun ss r₁ h₁ => ?_) fun x r₁ h₁ => ?_
  · have hle := h₁.reads.length_le
    simp only [yields_bind, yields_kind, yields_ite, yields_pure, yields_takeIf]
    split
    · intro s
      exact h₁.block (.refl h₁.reads.sound) (by simp) fun i m o hss hmo => hmo ▸ .openBlock hss
    next hopen =>
    have hne : r₁.current.kind ≠ .endOfFile := by
      intro he
      rw [he] at hopen
      exact hopen rfl
    have hlt := h₁.reads.sound.length_taken hne
    split
    next hk =>
      refine (result_reads hin h₁.reads.sound (by omega) hk).imp ?_
      rintro x r₂ ⟨h₂, hx⟩ s
      exact h₁.block h₂ (by simpa using hx) fun i m o hss hres => .returning hss hres
    split
    next hk =>
      simp only [if_true]
      exact ⟨h₁.semicolon hk, hlt⟩
    · simp only [Bool.false_eq_true, if_false]
      refine (statementOrSkip_reads hin h₁.reads.sound (by omega) hne).imp fun x r₂ h₂ => ?_
      exact ⟨h₁.snoc h h₂, h₂.shorter⟩
  · simp only [yields_bind, yields_ite, yields_get, yields_pure, yields_spanFrom]
    split <;> exact h₁ _

end Read

/-- No text is nested too deeply for its own readers: what is nested starts behind a token. -/
theorem Nested.good_upTo (n : Nat) : (Nested.upTo n).Good n := by
  induction n with
  | zero => exact ⟨fun _ r _ hlen => by simp [Reading.tokens] at hlen,
      fun r _ hlen => by simp [Reading.tokens] at hlen⟩
  | succ n ih =>
    refine ⟨fun parent r h hlen => Read.operand_reads ih h hlen parent, fun r h hlen => ?_⟩
    exact (Read.block_reads ih h hlen).imp fun b r' hb => ⟨hb.reads, hb.tidy⟩

namespace Reading

variable {r r₁ r₂ r₃ : Reading} {b rest : Block}

/-- Reading on behind a token that was reported makes a longer block. -/
theorem ReadsBlock.resume (h : r.Sound) (hb : ReadsBlock b r r₁) (h₂ : r₁.Stalls r₂)
    (hne : r₁.current.kind ≠ .endOfFile) (hrest : ReadsBlock rest r₂.taken r₃) {x : Option Return}
    (hx : x = b.result ∨ x = rest.result) (s : Span) :
    ReadsBlock ⟨b.statements ++ rest.statements, x, s⟩ r r₃ := by
  have hne₂ : r₂.current.kind ≠ .endOfFile := h₂.current ▸ hne
  have hadv := (advances_taken r₂).trans hrest.reads.advances
  have hlt := h₂.sound.start_lt_taken hne₂
  have hle := h.start_le hb.reads.advances
  have hle₃ := h₂.sound.taken.start_le hrest.reads.advances
  rw [h₂.current] at hlt
  obtain ⟨hlabelled, hparts⟩ := Node.tidy_iff.1 hb.tidy
  obtain ⟨hlabelled', hparts'⟩ := Node.tidy_iff.1 hrest.tidy
  simp only [Node.children, Block.parts, List.mem_append, List.mem_map, or_imp, forall_and,
    forall_exists_index, and_imp, forall_apply_eq_imp_iff₂] at hparts hparts'
  refine ⟨⟨hrest.reads.sound, ?_, fun hs => ?_⟩, Node.tidy_iff.2 ⟨⟨?_, ?_⟩, ?_⟩, ?_⟩
  · exact hb.reads.advances.trans (h₂.toRests.reads.advances.trans hadv)
  · exact absurd (hadv.silent hs) h₂.loud
  · rw [labelNames_append, List.pairwise_append]
    refine ⟨hlabelled.increasing, hlabelled'.increasing, fun m hm m' hm' => ?_⟩
    have := (hb.labels m hm).2
    have := (hrest.labels m' hm').1
    omega
  · intro m hm
    rw [labelNames_append, List.mem_append] at hm
    exact hm.elim (hlabelled.words m) (hlabelled'.words m)
  · have hx' : ∀ y ∈ x, (Node.result y).Tidy := by
      rcases hx with rfl | rfl
      · simpa using hparts.2
      · simpa using hparts'.2
    simpa [Node.children, Block.parts, or_imp, forall_and] using
      ⟨hparts.1, hparts'.1, hx'⟩
  · intro m hm
    rw [labelNames_append, List.mem_append] at hm
    rcases hm with hm | hm
    · have := hb.labels m hm
      omega
    · have := hrest.labels m hm
      omega

end Reading

namespace Read

/-- Reading a program goes on to the end of the file. -/
theorem chunk_reads {n : Nat} {r : Reading} (h : r.Sound) (hlen : r.tokens.length ≤ n + 1) :
    Yields (chunk (Nested.upTo (n + 1))) r fun c r' =>
      (r'.Silent → Grammar.Program c r.tokens) ∧ (Node.block c.block).Tidy := by
  have hblock (r' : Reading) (h' : r'.Sound) (hlen' : r'.tokens.length ≤ n + 1) :
      Yields (Nested.upTo (n + 1)).block r' fun b r'' => r'.ReadsBlock b r'' :=
    block_reads (Nested.good_upTo n) h' hlen'
  unfold chunk
  simp only [yields_bind]
  refine (hblock r h hlen).imp fun b r₁ h₁ => ?_
  refine Yields.imp (Yields.loop
    (Q := fun b r' => r.ReadsBlock b r' ∧ r'.current.kind = .endOfFile)
    (fun b r' => r.ReadsBlock b r') h₁ fun b r₂ h₂ => ?_) ?_
  · simp only [yields_bind, yields_kind, yields_ite, yields_pure]
    split
    next hk => exact ⟨h₂, hk⟩
    next hk =>
      simp only [yields_span, yields_take, yields_spanFrom]
      refine (yields_report h₂.reads.sound _ _).imp fun _ r₃ h₃ => ?_
      have hle := h₂.reads.length_le
      have hlt := h₃.sound.length_taken (h₃.current ▸ hk)
      rw [h₃.tokens_eq] at hlt
      refine (hblock _ h₃.sound.taken (by omega)).imp fun rest r₄ h₄ => ⟨?_, ?_⟩
      · refine h₂.resume h h₃ hk h₄ ?_ _
        cases b.result <;> simp
      · have := h₄.reads.length_le
        omega
  · rintro b r₂ ⟨h₂, hk⟩
    simp only [yields_span, yields_pure]
    refine ⟨fun hs => ⟨r₂.current, hk, ?_⟩, h₂.tidy⟩
    have hnil : r₂.tokens = [r₂.current] := by
      rw [Reading.tokens, (h₂.reads.sound.ordered.of_endOfFile hk).1]
    exact hnil ▸ h₂.reads.derives hs

end Read

/-! ## Texts -/

/-- The parser reads what the lexer hands out while it walks over the segments of a text. -/
theorem Reading.ofSource_eq (source : Text.Source) :
    ofSource source = ofLexemes (Scanner.ofSource source).lexemes := by
  rw [ofSource, Lexer.lexemes_ofSource]

theorem Reading.tokens_ofSource (source : Text.Source) :
    (Reading.ofSource source).tokens = (Scanner.ofSource source).lexemes.map Lexeme.token := by
  have h := Scanner.lexemes_ordered (Scanner.ofSource source)
  rw [Reading.ofSource_eq]
  cases hl : (Scanner.ofSource source).lexemes with
  | nil =>
    rw [hl] at h
    cases h
  | cons l ahead => rfl

theorem Reading.sound_ofSource (source : Text.Source) : (Reading.ofSource source).Sound := by
  have htokens := tokens_ofSource source
  have hend : (Reading.ofSource source).previousEnd = 0 := by
    rw [ofSource_eq]
    unfold Reading.ofLexemes
    split <;> rfl
  constructor
  · rw [htokens, hend]
    exact Scanner.lexemes_ordered (Scanner.ofSource source)
  · intro t ht
    rw [htokens] at ht
    obtain ⟨l, hl, rfl⟩ := List.mem_map.1 ht
    exact Scanner.spelled_of_mem_lexemes hl

namespace Tree

/-- What reading a text gives is the tree and its diagnostics. -/
theorem parse_of_yields {source : Text.Source} {Q : Chunk → Reading → Prop}
    (h : Read.Yields (Read.chunk (Reading.ofSource source).nested) (Reading.ofSource source) Q) :
    ∃ r', Q (parse source).root r' ∧ (parse source).diagnostics = r'.diagnostics := by
  obtain ⟨c, r', hrun, hq⟩ := h
  have hparse : (Reading.ofSource source).run Read.chunk = (c, r') := by
    rw [Reading.run, hrun]
    rfl
  refine ⟨r', ?_, ?_⟩
  · rw [parse, hparse]
    exact hq
  · rw [parse, hparse]
    simp [diagnostics, Reading.diagnostics, Event.diagnostic?]

theorem parse_reads (source : Text.Source) :
    ((parse source).diagnostics = [] →
      Grammar.Program (parse source).root (Reading.ofSource source).tokens) ∧
    (Node.block (parse source).root.block).Tidy := by
  have hlen : (Reading.ofSource source).tokens.length ≤
      (Reading.ofSource source).ahead.length + 1 := by
    simp [Reading.tokens]
  obtain ⟨r', hc, hdiag⟩ := parse_of_yields
    (Read.chunk_reads (Reading.sound_ofSource source) hlen)
  rw [hdiag]
  exact hc

end Tree
end Syntax
end LuaFront
