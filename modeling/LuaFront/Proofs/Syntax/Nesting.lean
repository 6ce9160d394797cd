import LuaFront.Proofs.Syntax.Spans
import LuaFront.Proofs.Token.Tiling

/-!
# LuaFront.Proofs.Syntax.Nesting

Stretches nest, in the tree of any text. Every statement, block and program is read as expressions
are: its parts stand one behind the other within it.

The block of a whole program is the one exception to the order of parts. Where reading goes on
behind a token that ends it, what follows a return is put in front of the return
(`Reading.Spreads`). It is within the block all the same.

* `Nested.lays_upTo`: what all readers of nested constructs achieve.
* `Tree.parse_lays`: the nodes of a tree, with where they come from.
* `Tree.spans_nest`: each node contains its children, and the program is the whole text.
-/

namespace LuaFront

open Text (Span)

/-- The end of file stands behind all characters. -/
theorem Token.Tiles.endOfFile {before cs : List Char} {ts : List Token}
    (h : Token.Tiles before cs ts) {t : Token} (ht : t ∈ ts) (hk : t.kind = .endOfFile) :
    t.span = Span.empty (Text.size (before ++ cs)) := by
  induction h with
  | last bs comment =>
    rw [List.mem_singleton] at ht
    rw [ht]
  | @cons before word rest t' ts bs hkind _ _ _ _ ih =>
    rcases List.mem_cons.1 ht with rfl | ht
    · exact absurd hk hkind
    · rw [ih ht]
      simp [List.append_assoc]

namespace Syntax

open Reading (Since)

theorem Node.everywhere_otherwise {first last : Reading} {b : Block} :
    (Node.otherwise b).Everywhere (Node.Sourced first last) ↔
      (Node.block b).Everywhere (Node.Sourced first last) := by
  rw [Node.everywhere_iff, Node.everywhere_iff]
  have hsourced : (Node.otherwise b).Sourced first last ↔ (Node.block b).Sourced first last :=
    ⟨fun h => ⟨h.framed, trivial⟩, fun h => ⟨h.framed, trivial⟩⟩
  exact and_congr hsourced Iff.rfl

namespace Reading.Lays

variable {first r r₁ : Reading} {lo : Nat} {b : Block}

theorem otherwise (h : first.Lays lo [.block b] r r₁) : first.Lays lo [.otherwise b] r r₁ where
  acts := h.acts
  laid := h.laid
  nodes := by
    refine List.forall_mem_singleton.2 (Node.everywhere_otherwise.2 ?_)
    exact List.forall_mem_singleton.1 h.nodes

end Reading.Lays

namespace Read

variable {first r : Reading} {depth : Nat}

/-! ## Parts of statements -/

theorem blockToEnd_lays (hin : Nested.Lays depth first) (h : Since first r) :
    Ensures (blockToEnd (.upTo depth)) r fun b r' =>
      first.Lays r.previousEnd [.block b] r r' := by
  unfold blockToEnd
  simp only [ensures_bind, ensures_pure]
  refine (hin.block r h).imp fun b r₁ h₁ => ?_
  refine (expect_passes (h.on h₁.acts) (by simp)).imp ?_
  rintro _ r₂ ⟨h₂, _⟩
  exact h₁.trans h₂.acts

theorem results_lays (hin : Nested.Lays depth first) (h : Since first r) :
    Ensures (results (.upTo depth)) r fun es r' =>
      first.Lays r.previousEnd (es.map .expression) r r' := by
  unfold results
  simp only [ensures_bind, ensures_kind, ensures_ite, ensures_pure]
  split
  · exact .nil (.refl r) (Nat.le_refl _)
  · refine (expressions_lays hin h).imp fun es r₁ h₁ => ?_
    exact h₁.2.low h.sound.start_ge

theorem result_builds (hin : Nested.Lays depth first) (h : Since first r)
    (hk : r.current.kind = .keyword .«return») :
    Ensures (result (.upTo depth)) r fun x r' =>
      first.Builds (.result x) r r' ∧ r.current.span.start < r'.current.span.start := by
  have hne : r.current.kind ≠ .endOfFile := by simp [hk]
  have h₁ := h.passes_taken hne
  have hs₁ := h.on h₁.acts
  have hlt := h.sound.start_lt_taken hne
  unfold result
  simp only [ensures_bind, ensures_start, ensures_spanFrom, ensures_pure, ensures_expect hk]
  refine (results_lays hin hs₁).imp fun es r₂ h₂ => ?_
  intro _ r₃ hrun
  have hlays := h₂.trans (Acting.acts hrun)
  refine ⟨.of_parts (h₁.trans hlays.acts) rfl (hlays.behind h₁) trivial, ?_⟩
  exact Nat.lt_of_lt_of_le hlt (hlays.acts.start_le hs₁.sound)

theorem elseIf_builds (hin : Nested.Lays depth first) (h : Since first r)
    (hk : r.current.kind ≠ .endOfFile) :
    Ensures (elseIf (.upTo depth)) r fun e r' => first.Builds (.elseIf e) r r' := by
  unfold elseIf
  simp only [ensures_bind, ensures_start, ensures_take, ensures_spanFrom, ensures_pure]
  have h₁ := h.passes_taken hk
  have hs₁ := h.on h₁.acts
  refine (expression_builds hin hs₁).imp fun c r₂ h₂ => ?_
  have hs₂ := hs₁.on h₂.passes.acts
  refine (expect_passes hs₂ (by simp)).imp ?_
  rintro _ r₃ ⟨h₃, _⟩
  refine (hin.block r₃ (hs₂.on h₃.acts)).imp fun b r₄ h₄ => ?_
  have hlays := (h₂.laysBehind hs₁.sound).append (h₄.skip h₃.acts)
  exact .of_parts (h₁.trans hlays.acts) rfl (hlays.behind h₁) trivial

theorem elseIfs_lays (hin : Nested.Lays depth first) (h : Since first r) :
    Ensures (elseIfs (.upTo depth)) r fun es r' =>
      first.Lays r.previousEnd (es.map .elseIf) r r' := by
  unfold elseIfs
  refine Ensures.loop (fun es r₁ => first.Lays r.previousEnd (es.map .elseIf) r r₁)
    (.nil (.refl r) (Nat.le_refl _)) fun es r₁ h₁ => ?_
  simp only [ensures_bind, ensures_kind, ensures_ite, ensures_pure]
  split
  next hk =>
    have hs₁ := h.on h₁.acts
    refine (elseIf_builds hin hs₁ (by simp [hk])).imp fun e r₂ h₂ => ?_
    rw [List.map_append]
    exact h₁.append (h₂.laysBehind hs₁.sound)
  · exact h₁

theorem otherwise_lays (hin : Nested.Lays depth first) (h : Since first r) :
    Ensures (otherwise (.upTo depth)) r fun b r' =>
      first.Lays r.previousEnd (b.map Node.otherwise).toList r r' := by
  unfold otherwise
  simp only [ensures_bind, ensures_takeIf, ensures_ite, ensures_map, ensures_pure]
  split
  · have hacts : r.Acts r.taken := .single (.took r)
    simp only [if_true]
    exact (hin.block _ (h.on hacts)).imp fun b r₂ h₂ => h₂.otherwise.skip hacts
  · simp only [Bool.false_eq_true, if_false]
    exact .nil (.refl r) (Nat.le_refl _)

theorem step_lays (hin : Nested.Lays depth first) (h : Since first r) :
    Ensures (step (.upTo depth)) r fun e r' =>
      first.Lays r.previousEnd (e.map Node.expression).toList r r' := by
  unfold step
  simp only [ensures_bind, ensures_takeIf, ensures_ite, ensures_map, ensures_pure]
  split
  · have hacts : r.Acts r.taken := .single (.took r)
    have hs₁ := h.on hacts
    simp only [if_true]
    exact (expression_builds hin hs₁).imp fun e r₂ h₂ => (h₂.laysBehind hs₁.sound).skip hacts
  · simp only [Bool.false_eq_true, if_false]
    exact .nil (.refl r) (Nat.le_refl _)

theorem functionName_builds (h : Since first r) :
    Ensures functionName r fun f r' => first.Builds (.functionName f) r r' := by
  unfold functionName
  simp only [ensures_bind, ensures_start, ensures_spanFrom, ensures_pure]
  refine (separated_lays (by simp) (fun _ h' => name_builds h') h).imp ?_
  rintro path r₁ ⟨h₁, _, hpath⟩
  intro m r₂ hrun
  have hpasses := h₁.trans (Acting.acts hrun)
  exact .of_parts hpasses rfl (.nil hpasses.acts hpasses.covers) hpath

theorem declaration_builds (h : Since first r) :
    Ensures declaration r fun d r' => first.Builds (.declaration d) r r' := by
  unfold declaration
  simp only [ensures_bind, ensures_start, ensures_spanFrom, ensures_pure]
  refine (name_builds h).imp fun n r₁ h₁ => ?_
  intro a r₂ hrun
  have hpasses := h₁.passes.trans (Acting.acts hrun)
  exact .of_parts hpasses rfl (.nil hpasses.acts hpasses.covers) (h₁.everywhere _ .refl).origin

theorem initializer_lays (hin : Nested.Lays depth first) (h : Since first r) :
    Ensures (initializer (.upTo depth)) r fun es r' =>
      first.Lays r.previousEnd (es.map .expression) r r' := by
  unfold initializer
  simp only [ensures_bind, ensures_takeIf, ensures_ite, ensures_pure]
  split
  · have hacts : r.Acts r.taken := .single (.took r)
    have hs₁ := h.on hacts
    simp only [if_true]
    refine (expressions_lays hin hs₁).imp fun es r₂ h₂ => ?_
    exact (h₂.2.low hs₁.sound.start_ge).skip hacts
  · simp only [Bool.false_eq_true, if_false]
    exact .nil (.refl r) (Nat.le_refl _)

/-! ## Statements -/

theorem ifThen_forms (hin : Nested.Lays depth first) (h : Since first r) :
    Ensures (ifThen (.upTo depth)) r fun s r' => first.Forms (.statement s) r r' := by
  unfold ifThen
  simp only [ensures_bind, ensures_start, ensures_spanFrom, ensures_pure]
  refine (expect_passes h (by simp)).imp ?_
  rintro _ r₁ ⟨h₁, _⟩
  have hs₁ := h.on h₁.acts
  refine (expression_builds hin hs₁).imp fun c r₂ h₂ => ?_
  have hs₂ := hs₁.on h₂.passes.acts
  refine (expect_passes hs₂ (by simp)).imp ?_
  rintro _ r₃ ⟨h₃, _⟩
  have hs₃ := hs₂.on h₃.acts
  refine (hin.block r₃ hs₃).imp fun b r₄ h₄ => ?_
  have hs₄ := hs₃.on h₄.acts
  refine (elseIfs_lays hin hs₄).imp fun es r₅ h₅ => ?_
  have hs₅ := hs₄.on h₅.acts
  refine (otherwise_lays hin hs₅).imp fun o r₆ h₆ => ?_
  have hs₆ := hs₅.on h₆.acts
  refine (expect_passes hs₆ (by simp)).imp ?_
  rintro _ r₇ ⟨h₇, _⟩
  have hrest := (h₄.skip h₃.acts).append (h₅.append h₆)
  have hlays := ((h₂.laysBehind hs₁.sound).append hrest).trans h₇.acts
  exact .of_parts (h₁.trans hlays.acts) rfl (hlays.behind h₁)

theorem forLoop_forms (hin : Nested.Lays depth first) (h : Since first r) :
    Ensures (forLoop (.upTo depth)) r fun s r' => first.Forms (.statement s) r r' := by
  unfold forLoop
  simp only [ensures_bind, ensures_start]
  refine (expect_passes h (by simp)).imp ?_
  rintro _ r₁ ⟨h₁, _⟩
  have hs₁ := h.on h₁.acts
  refine (name_builds hs₁).imp fun n r₂ h₂ => ?_
  have hs₂ := hs₁.on h₂.passes.acts
  have hname := h₂.laysBehind hs₁.sound
  rw [ensures_takeIf]
  split
  · have hacts : r₂.Acts r₂.taken := .single (.took r₂)
    have hs₃ := hs₂.on hacts
    simp only [if_true, ensures_bind, ensures_spanFrom, ensures_pure]
    refine (expression_builds hin hs₃).imp fun initial r₄ h₄ => ?_
    have hs₄ := hs₃.on h₄.passes.acts
    refine (expect_passes hs₄ (by simp)).imp ?_
    rintro _ r₅ ⟨h₅, _⟩
    have hs₅ := hs₄.on h₅.acts
    refine (expression_builds hin hs₅).imp fun limit r₆ h₆ => ?_
    have hs₆ := hs₅.on h₆.passes.acts
    refine (step_lays hin hs₆).imp fun step r₇ h₇ => ?_
    have hs₇ := hs₆.on h₇.acts
    refine (expect_passes hs₇ (by simp)).imp ?_
    rintro _ r₈ ⟨h₈, _⟩
    refine (blockToEnd_lays hin (hs₇.on h₈.acts)).imp fun b r₉ h₉ => ?_
    have hinitial := (h₄.laysBehind hs₃.sound).skip hacts
    have hlimit := (h₆.laysBehind hs₅.sound).skip h₅.acts
    have hlays := hname.append (hinitial.append (hlimit.append (h₇.append (h₉.skip h₈.acts))))
    exact .of_parts (h₁.trans hlays.acts) rfl (hlays.behind h₁)
  · simp only [Bool.false_eq_true, if_false, ensures_bind, ensures_spanFrom, ensures_pure]
    refine (following_lays (by simp) (fun _ h' => name_builds h') hs₂).imp fun more r₃ h₃ => ?_
    have hs₃ := hs₂.on h₃.acts
    refine (expect_passes hs₃ (by simp)).imp ?_
    rintro _ r₄ ⟨h₄, _⟩
    have hs₄ := hs₃.on h₄.acts
    refine (expressions_lays hin hs₄).imp ?_
    rintro values r₅ ⟨h₅, hvalues⟩
    have hs₅ := hs₄.on h₅.acts
    refine (expect_passes hs₅ (by simp)).imp ?_
    rintro _ r₆ ⟨h₆, _⟩
    refine (blockToEnd_lays hin (hs₅.on h₆.acts)).imp fun b r₇ h₇ => ?_
    have hvalues := (hvalues.low hs₄.sound.start_ge).skip h₄.acts
    have hlays := ((hname.append h₃).append hvalues).append (h₇.skip h₆.acts)
    exact .of_parts (h₁.trans hlays.acts) rfl (hlays.behind h₁)

theorem function_forms (hin : Nested.Lays depth first) (h : Since first r) :
    Ensures (function (.upTo depth)) r fun s r' => first.Forms (.statement s) r r' := by
  unfold function
  simp only [ensures_bind, ensures_start, ensures_spanFrom, ensures_pure]
  refine (expect_passes h (by simp)).imp ?_
  rintro _ r₁ ⟨h₁, _⟩
  have hs₁ := h.on h₁.acts
  refine (functionName_builds hs₁).imp fun n r₂ h₂ => ?_
  have hs₂ := hs₁.on h₂.passes.acts
  refine (functionBody_builds hin hs₂).imp fun f r₃ h₃ => ?_
  have hlays := (h₂.laysBehind hs₁.sound).append (h₃.laysBehind hs₂.sound)
  exact .of_parts (h₁.trans hlays.acts) rfl (hlays.behind h₁)

theorem localStatement_forms (hin : Nested.Lays depth first) (h : Since first r) :
    Ensures (localStatement (.upTo depth)) r fun s r' => first.Forms (.statement s) r r' := by
  unfold localStatement
  simp only [ensures_bind, ensures_start]
  refine (expect_passes h (by simp)).imp ?_
  rintro _ r₁ ⟨h₁, _⟩
  have hs₁ := h.on h₁.acts
  rw [ensures_takeIf]
  split
  · have hacts : r₁.Acts r₁.taken := .single (.took r₁)
    have hs₂ := hs₁.on hacts
    simp only [if_true, ensures_bind, ensures_spanFrom, ensures_pure]
    refine (name_builds hs₂).imp fun n r₃ h₃ => ?_
    have hs₃ := hs₂.on h₃.passes.acts
    refine (functionBody_builds hin hs₃).imp fun f r₄ h₄ => ?_
    have hlays := ((h₃.laysBehind hs₂.sound).append (h₄.laysBehind hs₃.sound)).skip hacts
    exact .of_parts (h₁.trans hlays.acts) rfl (hlays.behind h₁)
  · simp only [Bool.false_eq_true, if_false, ensures_bind, ensures_spanFrom, ensures_pure]
    refine (separated_lays (by simp) (fun _ h' => declaration_builds h') hs₁).imp ?_
    rintro ds r₂ ⟨h₂, hds, _⟩
    refine (initializer_lays hin (hs₁.on h₂.acts)).imp fun es r₃ h₃ => ?_
    have hlays := (hds.low hs₁.sound.start_ge).append h₃
    exact .of_parts (h₁.trans hlays.acts) rfl (hlays.behind h₁)

/-- A target is kept, whether or not something is reported of it. -/
theorem ensures_checkTarget (e : Expression) (r : Reading) :
    Ensures (checkTarget e) r fun t r' => t = e ∧ (r' = r ∨ ∃ d, r' = r.reported d) := by
  unfold checkTarget
  simp only [ensures_bind, ensures_ite, ensures_pure]
  split
  · intro _ r' hrun
    rw [run_report] at hrun
    cases hrun
    refine ⟨trivial, ?_⟩
    split
    · exact .inr ⟨_, rfl⟩
    · exact .inl rfl
  · exact ⟨trivial, .inl trivial⟩

end Read

namespace Reading

/-- A node that was read stands where it stood after its target was checked. -/
theorem Builds.checked {first r r₁ r₂ : Reading} {n : Node} (h : first.Builds n r r₁)
    (hr₂ : r₂ = r₁ ∨ ∃ d, r₂ = r₁.reported d) : first.Builds n r r₂ := by
  rcases hr₂ with rfl | ⟨d, rfl⟩
  · exact h
  · have hacts : r₁.Acts (r₁.reported d) := .single (.reported r₁ d)
    exact ⟨h.passes.trans hacts, h.span, h.everywhere.mono hacts⟩

end Reading

namespace Read

variable {first r : Reading} {depth : Nat}

theorem target_builds (hin : Nested.Lays depth first) (h : Since first r) :
    Ensures (do checkTarget (← prefixExpression (.upTo depth)).1) r fun e r' =>
      first.Builds (.expression e) r r' := by
  simp only [ensures_bind]
  refine (prefixExpression_builds hin h).imp fun e r₁ h₁ => ?_
  refine (ensures_checkTarget e.1 r₁).imp ?_
  rintro _ r₂ ⟨rfl, hr₂⟩
  exact h₁.checked hr₂

theorem callOrAssign_forms (hin : Nested.Lays depth first) (h : Since first r) :
    Ensures (callOrAssign (.upTo depth)) r fun s r' => first.Forms (.statement s) r r' := by
  unfold callOrAssign
  simp only [ensures_bind, ensures_start]
  refine (prefixExpression_builds hin h).imp ?_
  rintro ⟨e, shape⟩ r₁ h₁
  simp only [ensures_ite, ensures_bind, ensures_spanFrom, ensures_pure]
  split
  · exact .of_parts h₁.passes rfl h₁.lays
  · refine (ensures_checkTarget e r₁).imp ?_
    rintro _ r₂ ⟨rfl, hr₂⟩
    have h₂ := h₁.checked hr₂
    have hs₂ := h.on h₂.passes.acts
    refine (following_lays (by simp) (fun _ h' => target_builds hin h') hs₂).imp
      fun more r₃ h₃ => ?_
    have hs₃ := hs₂.on h₃.acts
    refine (expect_passes hs₃ (by simp)).imp ?_
    rintro _ r₄ ⟨h₄, _⟩
    have hs₄ := hs₃.on h₄.acts
    refine (expressions_lays hin hs₄).imp ?_
    rintro values r₅ ⟨h₅, hvalues⟩
    have hlays := (h₂.lays.append h₃).append ((hvalues.low hs₄.sound.start_ge).skip h₄.acts)
    exact .of_parts (h₂.passes.trans (h₃.acts.trans (h₄.acts.trans h₅.acts))) rfl hlays

/-- A statement, or nothing. Something is consumed in any case. -/
theorem statement_forms (hin : Nested.Lays depth first) (h : Since first r) :
    Ensures (statement (.upTo depth)) r fun x r' =>
      r.Passes r' ∧ ∀ s ∈ x, first.Forms (.statement s) r r' := by
  have hsome {m : Read Statement}
      (hm : Ensures m r fun s r' => first.Forms (.statement s) r r') :
      Ensures (some <$> m) r fun x r' => r.Passes r' ∧ ∀ s ∈ x, first.Forms (.statement s) r r' := by
    rw [ensures_map]
    refine hm.imp fun s r' hs => ⟨hs.passes, ?_⟩
    simpa using hs
  have hdone {s : Statement} {r' : Reading} (hs : first.Forms (.statement s) r r') :
      r.Passes r' ∧ ∀ s' ∈ some s, first.Forms (.statement s') r r' :=
    ⟨hs.passes, by simpa using hs⟩
  unfold statement
  simp only [ensures_bind, ensures_start, ensures_kind]
  split
  next => exact hsome (ifThen_forms hin h)
  next => exact hsome (forLoop_forms hin h)
  next => exact hsome (function_forms hin h)
  next => exact hsome (localStatement_forms hin h)
  next => exact hsome (callOrAssign_forms hin h)
  next => exact hsome (callOrAssign_forms hin h)
  next hk =>
    simp only [ensures_bind, ensures_take, ensures_spanFrom, ensures_pure]
    have h₁ := h.passes_taken (by simp [hk])
    have hs₁ := h.on h₁.acts
    refine (expression_builds hin hs₁).imp fun c r₂ h₂ => ?_
    have hs₂ := hs₁.on h₂.passes.acts
    refine (expect_passes hs₂ (by simp)).imp ?_
    rintro _ r₃ ⟨h₃, _⟩
    refine (blockToEnd_lays hin (hs₂.on h₃.acts)).imp fun b r₄ h₄ => ?_
    have hlays := (h₂.laysBehind hs₁.sound).append (h₄.skip h₃.acts)
    exact hdone (.of_parts (h₁.trans hlays.acts) rfl (hlays.behind h₁))
  next hk =>
    simp only [ensures_bind, ensures_take, ensures_spanFrom, ensures_pure]
    have h₁ := h.passes_taken (by simp [hk])
    have hs₁ := h.on h₁.acts
    refine (hin.block _ hs₁).imp fun b r₂ h₂ => ?_
    have hs₂ := hs₁.on h₂.acts
    refine (expect_passes hs₂ (by simp)).imp ?_
    rintro _ r₃ ⟨h₃, _⟩
    have hs₃ := hs₂.on h₃.acts
    refine (expression_builds hin hs₃).imp fun c r₄ h₄ => ?_
    have hlays := h₂.append ((h₄.laysBehind hs₃.sound).skip h₃.acts)
    exact hdone (.of_parts (h₁.trans hlays.acts) rfl (hlays.behind h₁))
  next hk =>
    simp only [ensures_bind, ensures_take, ensures_spanFrom, ensures_pure]
    have h₁ := h.passes_taken (by simp [hk])
    refine (blockToEnd_lays hin (h.on h₁.acts)).imp fun b r₂ h₂ => ?_
    exact hdone (.of_parts (h₁.trans h₂.acts) rfl (h₂.behind h₁))
  next hk =>
    simp only [ensures_bind, ensures_take, ensures_spanFrom, ensures_pure]
    have h₁ := h.passes_taken (by simp [hk])
    have hs₁ := h.on h₁.acts
    refine (name_builds hs₁).imp fun n r₂ h₂ => ?_
    refine (expect_passes (hs₁.on h₂.passes.acts) (by simp)).imp ?_
    rintro _ r₃ ⟨h₃, _⟩
    have hlays := (h₂.laysBehind hs₁.sound).trans h₃.acts
    exact hdone (.of_parts (h₁.trans hlays.acts) rfl (hlays.behind h₁))
  next hk =>
    simp only [ensures_bind, ensures_take, ensures_spanFrom, ensures_pure]
    have h₁ := h.passes_taken (by simp [hk])
    have hs₁ := h.on h₁.acts
    refine (name_builds hs₁).imp fun n r₂ h₂ => ?_
    have hlays := h₂.laysBehind hs₁.sound
    exact hdone (.of_parts (h₁.trans hlays.acts) rfl (hlays.behind h₁))
  next hk =>
    simp only [ensures_bind, ensures_take, ensures_spanFrom, ensures_pure]
    have h₁ := h.passes_taken (by simp [hk])
    exact hdone (.of_parts h₁ rfl (.nil h₁.acts h₁.covers))
  next =>
    simp only [ensures_bind, ensures_span, ensures_take, ensures_pure]
    refine (ensures_report h.sound).imp ?_
    rintro _ r₁ ⟨h₁, hacts⟩
    intro _ r₂ hrun
    have hskip : r₁.taken.Acts r₂ := Acting.acts hrun
    have htook : r₁.Acts r₁.taken := .single (.took r₁)
    refine ⟨⟨hacts.trans (htook.trans hskip), ?_, fun hs => ?_⟩, by simp⟩
    · rw [← h₁.current]
      exact Nat.le_trans h₁.sound.start_le_taken hskip.previousEnd_le
    · exact absurd ((htook.trans hskip).advances.silent hs) h₁.loud

theorem statement_builds (hin : Nested.Lays depth first) (h : Since first r) :
    Ensures (statement (.upTo depth)) r fun x r' =>
      r.Passes r' ∧ ∀ s ∈ x, first.Builds (.statement s) r r' := by
  intro x r' hrun
  obtain ⟨hpasses, hforms⟩ := statement_forms hin h x r' hrun
  refine ⟨hpasses, fun s hs => ?_⟩
  cases hs
  have hs := hforms s rfl
  exact hs.builds ⟨depth, r, r', h.acts, .refl r', hs.span, hrun⟩

/-- A token is dropped if the statement consumed none, so the next one starts later. -/
theorem statementOrSkip_lays (hin : Nested.Lays depth first) (h : Since first r)
    (hk : r.current.kind ≠ .endOfFile) :
    Ensures (statementOrSkip (.upTo depth)) r fun x r' =>
      r.Passes r' ∧ r.current.span.start < r'.current.span.start ∧
        first.Lays r.current.span.start (x.toList.map .statement) r r' := by
  unfold statementOrSkip
  simp only [ensures_bind, ensures_start, ensures_kind]
  refine (statement_builds hin h).imp ?_
  rintro x r₁ ⟨h₁, hx⟩
  have hlays : first.Lays r.current.span.start (x.toList.map .statement) r r₁ := by
    cases x with
    | none => exact .nil h₁.acts h₁.covers
    | some s => exact (hx s rfl).lays
  have hs₁ := h.on h₁.acts
  have hle := h₁.acts.start_le h.sound
  simp only [ensures_ite, ensures_bind, ensures_kind, ensures_pure, ensures_take]
  split
  next hstill =>
    intro _ r₂ hrun
    cases hrun
    have hforced : r₁.Acts (r₁.forced r₁.current.kind r.current.span.start) :=
      .single (.forced ..)
    have htook := hforced.trans (.single (.took _))
    have hlt := (hforced.sound hs₁.sound).start_lt_taken hstill.2
    exact ⟨h₁.trans htook, Nat.lt_of_le_of_lt hle hlt, hlays.trans htook⟩
  next hmoved =>
    refine ⟨h₁, ?_, hlays⟩
    have hadvances := h₁.acts.advances
    rcases Nat.lt_or_ge r₁.tokens.length r.tokens.length with hshort | hlong
    · exact h.sound.start_lt hadvances hshort
    · have hsame : r₁.tokens = r.tokens :=
        hadvances.tokens.eq_of_length (Nat.le_antisymm hadvances.length_le hlong)
      have hcurrent : r₁.current = r.current := (List.cons.inj hsame).1
      exact absurd ⟨by rw [hcurrent], by rw [hcurrent]; exact hk⟩ hmoved

/-! ## Blocks -/

/-- Statements up to the end of a block: either nothing was consumed, or the block starts at its
first token. -/
theorem statements_lays (hin : Nested.Lays depth first) (h : Since first r) :
    Ensures (loop (fun statements => do
      if endsBlock (← kind) then return .inr (statements, none)
      else if (← kind) = .keyword .«return» then
        return .inr (statements, some (← result (.upTo depth)))
      else if ← takeIf (.sign .semicolon) then return .inl statements
      else return .inl (statements ++ (← statementOrSkip (.upTo depth)).toList)) []) r
      fun x r' => (x = ([], none) ∧ r' = r) ∨
        (r.Passes r' ∧ r.current.span.start < r'.current.span.start ∧
          ∀ s, first.Lays r.current.span.start (Block.mk x.1 x.2 s).parts r r') := by
  refine Ensures.loop (fun ss r₁ => (ss = [] ∧ r₁ = r) ∨
    (r.Passes r₁ ∧ r.current.span.start < r₁.current.span.start ∧
      first.Lays r.current.span.start (ss.map .statement) r r₁)) (.inl ⟨rfl, rfl⟩) ?_
  intro ss r₁ hinv
  have hsince : Since first r₁ := by
    rcases hinv with ⟨_, rfl⟩ | ⟨h₁, _⟩
    · exact h
    · exact h.on h₁.acts
  -- One more statement or the return, which starts at the first token if there was none before.
  have hmore {r₂ : Reading} {ns : List Node} (hpasses : r₁.Passes r₂)
      (hlt : r₁.current.span.start < r₂.current.span.start)
      (hlays : first.Lays r₁.current.span.start ns r₁ r₂) :
      r.Passes r₂ ∧ r.current.span.start < r₂.current.span.start ∧
        first.Lays r.current.span.start (ss.map .statement ++ ns) r r₂ := by
    rcases hinv with ⟨rfl, rfl⟩ | ⟨h₁, hlt₁, hss⟩
    · exact ⟨hpasses, hlt, hlays⟩
    · exact ⟨h₁.trans hpasses.acts, by omega, hss.append (hlays.low hsince.sound.start_ge)⟩
  simp only [ensures_bind, ensures_kind, ensures_ite, ensures_pure, ensures_takeIf]
  split
  · rcases hinv with ⟨rfl, rfl⟩ | ⟨h₁, hlt₁, hss⟩
    · exact .inl ⟨rfl, rfl⟩
    · refine .inr ⟨h₁, hlt₁, fun s => ?_⟩
      simpa [Block.parts] using hss
  next hopen =>
  have hne : r₁.current.kind ≠ .endOfFile := by
    intro he
    rw [he] at hopen
    exact hopen rfl
  split
  next hk =>
    intro x r₂ hrun
    obtain ⟨hx, hlt⟩ := result_builds hin hsince hk x r₂ hrun
    obtain ⟨hpasses, hlt, hlays⟩ := hmore hx.passes hlt hx.lays
    exact .inr ⟨hpasses, hlt, fun s => hlays⟩
  split
  next hk =>
    have htaken := hsince.passes_taken hne
    simp only [if_true]
    have := hmore htaken (hsince.sound.start_lt_taken hne) (.nil htaken.acts htaken.covers)
    rw [List.append_nil] at this
    exact .inr this
  · simp only [Bool.false_eq_true, if_false]
    refine (statementOrSkip_lays hin hsince hne).imp ?_
    rintro x r₂ ⟨hpasses, hlt, hlays⟩
    have := hmore hpasses hlt hlays
    rw [← List.map_append] at this
    exact .inr this

theorem block_lays (hin : Nested.Lays depth first) (h : Since first r) :
    Ensures (block (.upTo depth)) r fun b r' => first.Lays r.previousEnd [.block b] r r' := by
  unfold block
  simp only [ensures_bind, ensures_start]
  refine (statements_lays hin h).imp ?_
  rintro ⟨ss, last⟩ r₁ hblock
  simp only [ensures_bind, ensures_ite, ensures_get, ensures_pure, ensures_spanFrom]
  rcases hblock with ⟨hempty, rfl⟩ | ⟨hpasses, hlt, hparts⟩
  · cases hempty
    have hmin : min r₁.previousEnd r₁.current.span.start = r₁.previousEnd :=
      Nat.min_eq_left h.sound.start_ge
    rw [if_pos rfl, hmin]
    refine ⟨.refl r₁, ⟨Nat.le_refl _, Nat.le_refl _, Nat.le_refl _⟩, ?_⟩
    refine List.forall_mem_singleton.2 (Node.everywhere_iff.2 ⟨⟨?_, trivial⟩, ?_⟩)
    · exact Nat.le_refl _
    · simp [Node.children, Block.parts]
  · rw [if_neg (by omega)]
    exact Reading.Builds.laysBehind (.of_parts hpasses rfl (hparts _) trivial) h.sound

end Read

theorem Nested.lays_upTo {first : Reading} (depth : Nat) : Nested.Lays depth first := by
  induction depth with
  | zero =>
    constructor
    · intro parent r _ e r' hrun
      cases hrun
    · intro r _ b r' hrun
      cases hrun
  | succ depth ih =>
    exact ⟨fun parent r h => Read.operand_builds ih h parent, fun r h => Read.block_lays ih h⟩

/-! ## Programs -/

namespace Reading

/-- The block of a program, as far as it was read. Its parts are within it and well placed, and they
stand in order unless something was reported. -/
structure Spreads (first : Reading) (b : Block) (r : Reading) : Prop where
  acts : first.Acts r
  start_le : b.span.start ≤ b.span.stop
  stop_le : b.span.stop ≤ r.previousEnd
  nodes : ∀ n ∈ b.parts, n.Everywhere (Node.Sourced first r)
  within : ∀ n ∈ b.parts, b.span.start ≤ n.span.start ∧ n.span.stop ≤ b.span.stop
  framed : r.Silent → (Node.block b).Framed

variable {first r r₁ r₂ : Reading} {b rest : Block}

theorem Lays.spreads (h : first.Lays r.previousEnd [.block b] r r₁) (hacts : first.Acts r) :
    first.Spreads b r₁ := by
  obtain ⟨hb, hnodes⟩ := Node.everywhere_iff.1 (List.forall_mem_singleton.1 h.nodes)
  have hframed := hb.framed
  exact ⟨hacts.trans h.acts, h.laid.2.1, h.laid.2.2, hnodes, fun n hn => hframed.bounds hn,
    fun _ => hframed⟩

/-- Reading on behind a token that was reported makes a longer block. -/
theorem Spreads.resume (hb : first.Spreads b r) (hacts : r.Acts r₁) (hloud : ¬ r₁.Silent)
    (hrest : first.Lays r₁.previousEnd [.block rest] r₁ r₂) {x : Option Return}
    (hx : x = b.result ∨ x = rest.result) :
    first.Spreads ⟨b.statements ++ rest.statements, x,
      ⟨b.span.start, max r₂.previousEnd b.span.start⟩⟩ r₂ := by
  have hr := hrest.spreads (hb.acts.trans hacts)
  have hacts₂ := hacts.trans hrest.acts
  have hstart := hb.start_le
  have hstop := hb.stop_le
  have hbehind : r₁.previousEnd ≤ rest.span.start := hrest.laid.1
  have hle₁ := hacts.previousEnd_le
  have hle₂ := hrest.acts.previousEnd_le
  have hmax : max r₂.previousEnd b.span.start = r₂.previousEnd := Nat.max_eq_left (by omega)
  have hmem {n : Node} (hn : n ∈ (Block.mk (b.statements ++ rest.statements) x
      ⟨b.span.start, max r₂.previousEnd b.span.start⟩).parts) : n ∈ b.parts ∨ n ∈ rest.parts := by
    simp only [Block.parts, List.map_append, List.mem_append] at hn ⊢
    rcases hx with rfl | rfl
    · rcases hn with (hn | hn) | hn
      · exact .inl (.inl hn)
      · exact .inr (.inl hn)
      · exact .inl (.inr hn)
    · rcases hn with (hn | hn) | hn
      · exact .inl (.inl hn)
      · exact .inr (.inl hn)
      · exact .inr (.inr hn)
  refine ⟨hr.acts, ?_, Nat.le_of_eq hmax, fun n hn => ?_, fun n hn => ?_, fun hs => ?_⟩
  · exact Nat.le_max_right ..
  · rcases hmem hn with hn | hn
    · exact (hb.nodes n hn).mono hacts₂
    · exact hr.nodes n hn
  · change b.span.start ≤ n.span.start ∧ n.span.stop ≤ max r₂.previousEnd b.span.start
    rw [hmax]
    rcases hmem hn with hn | hn
    · obtain ⟨hlo, hhi⟩ := hb.within n hn
      exact ⟨hlo, by omega⟩
    · obtain ⟨hlo, hhi⟩ := hr.within n hn
      have := hr.stop_le
      exact ⟨by omega, by omega⟩
  · exact absurd (hrest.acts.advances.silent hs) hloud

end Reading

namespace Read

theorem chunk_spreads {first : Reading} (hfirst : first.Sound) (depth : Nat) :
    Ensures (chunk (.upTo depth)) first fun c r' => first.Spreads c.block r' ∧
      r'.current.kind = .endOfFile ∧ c.span = ⟨0, r'.current.span.stop⟩ := by
  have hin : Nested.Lays depth first := Nested.lays_upTo depth
  have hsince : Since first first := ⟨hfirst, .refl first⟩
  unfold chunk
  simp only [ensures_bind]
  refine (hin.block first hsince).imp fun b r₁ h₁ => ?_
  refine Ensures.imp (Ensures.loop
    (Q := fun b r' => first.Spreads b r' ∧ r'.current.kind = .endOfFile)
    (fun b r' => first.Spreads b r') (h₁.spreads (.refl first)) fun b r₂ h₂ => ?_) ?_
  · simp only [ensures_bind, ensures_kind, ensures_ite, ensures_pure]
    split
    next hk => exact ⟨h₂, hk⟩
    next hk =>
      simp only [ensures_span, ensures_take, ensures_spanFrom]
      have hs₂ := hsince.on h₂.acts
      refine (ensures_report hs₂.sound).imp ?_
      rintro _ r₃ ⟨h₃, hacts⟩
      have htook : r₃.Acts r₃.taken := .single (.took r₃)
      have hloud : ¬ r₃.taken.Silent := fun hs => h₃.loud (htook.advances.silent hs)
      refine (hin.block _ ((hs₂.on hacts).on htook)).imp fun rest r₄ h₄ => ?_
      refine h₂.resume (hacts.trans htook) hloud h₄ ?_
      cases b.result <;> simp
  · rintro b r₂ ⟨h₂, hk⟩
    simp only [ensures_span, ensures_pure]
    exact ⟨h₂, hk, trivial⟩

end Read

/-! ## Texts -/

namespace Tree

/-- The nodes of a tree are well placed, and come from reading its text to the end. -/
theorem parse_lays (source : Text.Source) :
    ∃ last, (Reading.ofSource source).Spreads (parse source).root.block last ∧
      (parse source).root.span = ⟨0, source.length⟩ ∧
      last.previousEnd ≤ source.length ∧ (parse source).diagnostics = last.diagnostics ∧
      last.current.kind = .endOfFile := by
  have hsound := Reading.sound_ofSource source
  have hlen : (Reading.ofSource source).tokens.length ≤
      (Reading.ofSource source).ahead.length + 1 := by
    simp [Reading.tokens]
  obtain ⟨last, ⟨hspreads, hkind, hspan⟩, hdiagnostics⟩ := parse_of_yields
    ((Read.chunk_reads hsound hlen).of_ensures (Read.chunk_spreads hsound _))
  have hmem : last.current ∈ (Scanner.ofSource source).lexemes.map Lexeme.token := by
    rw [← Reading.tokens_ofSource]
    exact hspreads.acts.advances.tokens.subset (by simp [Reading.tokens])
  have hend := (Scanner.tiles_lexemes (Scanner.ofSource source) [] rfl).endOfFile hmem hkind
  have hlength : Text.size ([] ++ (Scanner.ofSource source).rest) = source.length :=
    source.length_eq_size_chars.symm
  rw [hlength] at hend
  refine ⟨last, hspreads, ?_, ?_, hdiagnostics, hkind⟩
  · rw [hspan, hend]
    rfl
  · have := (hspreads.acts.sound hsound).start_ge
    rw [hend] at this
    exact this

end Tree

/-- A node does not end before it starts, and contains its children. -/
def Node.Nests (n : Node) : Prop :=
  n.span.start ≤ n.span.stop ∧ ∀ c ∈ n.children, n.span.contains c.span = true

theorem Node.Framed.nests {n : Node} (h : n.Framed) : n.Nests :=
  ⟨h.le, fun _ hc => Span.contains_iff.2 (h.bounds hc)⟩

theorem Reading.Spreads.nests {first last : Reading} {b : Block} (h : first.Spreads b last) :
    (Node.block b).Everywhere Node.Nests := by
  refine Node.everywhere_iff.2 ⟨⟨h.start_le, fun n hn => ?_⟩, fun n hn => ?_⟩
  · exact Span.contains_iff.2 (h.within n hn)
  · exact (h.nodes n hn).imp fun m hm => hm.framed.nests

/-- Stretches nest: no node ends before it starts, each contains its children, and the program
is the whole text. -/
theorem Tree.spans_nest (source : Text.Source) :
    (parse source).root.span = ⟨0, source.length⟩ ∧
      ∀ n, Node.Within n (.chunk (parse source).root) → n.span.start ≤ n.span.stop ∧
        ∀ c ∈ n.children, n.span.contains c.span = true := by
  obtain ⟨last, h, hspan, hlast, _⟩ := parse_lays source
  refine ⟨hspan, Node.everywhere_iff.2 ⟨⟨?_, ?_⟩, List.forall_mem_singleton.2 h.nests⟩⟩
  · rw [Node.span, hspan]
    exact Nat.zero_le _
  · refine List.forall_mem_singleton.2 (Span.contains_iff.2 ?_)
    rw [Node.span, hspan]
    exact ⟨Nat.zero_le _, Nat.le_trans h.stop_le hlast⟩

end Syntax
end LuaFront
