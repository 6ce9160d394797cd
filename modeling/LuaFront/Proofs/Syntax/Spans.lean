import LuaFront.Proofs.Syntax.Acts
import LuaFront.Proofs.Syntax.Statement

/-!
# LuaFront.Proofs.Syntax.Spans

Where the nodes of a tree stand, for any text, well formed or not.

* `Node.Laid lo hi ns`: the nodes `ns` stand one behind the other between two offsets. A node is
  `Framed` if its children are so laid within its own stretch.
* `Node.Origin`: what run of a reader a node comes from. An expression may be what a loop over
  operators or over suffixes had at some turn (`Read.Turned`).
* `Reading.Passes`: something was consumed, or made up in its place. The offset that tokens have
  reached is then at or behind the start of the first of them, and this is the invariant that makes
  stretches nest: `previousEnd` is never before the start of a node that is being read, and never
  behind the start of the current token.
* `Reading.Lays`, `Reading.Forms`, `Reading.Builds`: what a reader of nodes, of a node without its
  origin, and of a node with it, achieves.
-/

namespace LuaFront
namespace Syntax

open Text (Span)

/-! ## Nodes in a row -/

namespace Node

/-- Nodes that stand one behind the other, from one offset to another. -/
def Laid : Nat → Nat → List Node → Prop
  | lo, hi, [] => lo ≤ hi
  | lo, hi, n :: later =>
    lo ≤ n.span.start ∧ n.span.start ≤ n.span.stop ∧ Laid n.span.stop hi later

namespace Laid

variable {lo lo' hi hi' mid : Nat} {ns ms : List Node} {n : Node}

theorem low (h : Laid lo hi ns) (hle : lo' ≤ lo) : Laid lo' hi ns := by
  cases ns with
  | nil => exact Nat.le_trans hle h
  | cons n later => exact ⟨Nat.le_trans hle h.1, h.2⟩

theorem high (h : Laid lo hi ns) (hle : hi ≤ hi') : Laid lo hi' ns := by
  induction ns generalizing lo with
  | nil => exact Nat.le_trans h hle
  | cons n later ih => exact ⟨h.1, h.2.1, ih h.2.2⟩

theorem le (h : Laid lo hi ns) : lo ≤ hi := by
  induction ns generalizing lo with
  | nil => exact h
  | cons n later ih =>
    have := ih h.2.2
    have := h.1
    have := h.2.1
    omega

theorem append (h : Laid lo mid ns) (h' : Laid mid hi ms) : Laid lo hi (ns ++ ms) := by
  induction ns generalizing lo with
  | nil => exact h'.low h
  | cons n later ih => exact ⟨h.1, h.2.1, ih h.2.2⟩

theorem bounds (h : Laid lo hi ns) (hn : n ∈ ns) : lo ≤ n.span.start ∧ n.span.stop ≤ hi := by
  induction ns generalizing lo with
  | nil => cases hn
  | cons m later ih =>
    rcases List.mem_cons.1 hn with rfl | hn
    · exact ⟨h.1, h.2.2.le⟩
    · obtain ⟨hlo, hhi⟩ := ih h.2.2 hn
      have := h.1
      have := h.2.1
      exact ⟨by omega, hhi⟩

theorem pairwise (h : Laid lo hi ns) : ns.Pairwise fun n m => n.span.stop ≤ m.span.start := by
  induction ns generalizing lo with
  | nil => exact .nil
  | cons n later ih => exact .cons (fun m hm => (h.2.2.bounds hm).1) (ih h.2.2)

end Laid

/-- The children of a node stand one behind the other, within it. -/
def Framed (n : Node) : Prop := Laid n.span.start n.span.stop n.children

end Node

/-! ## Where nodes come from -/

namespace Read

variable {σ α : Type}

/-- Some turns of a loop, none of them the last. -/
inductive Turned (step : σ → Read (σ ⊕ α)) (a : σ) (r : Reading) : σ → Reading → Prop where
  | refl : Turned step a r a r
  | tail {b c : σ} {r₁ r₂ : Reading} : Turned step a r b r₁ →
      (step b).run r₁ = some (.inl c, r₂) → Turned step a r c r₂

theorem Turned.acts {step : σ → Read (σ ⊕ α)} [∀ a, Acting (step a)] {a b : σ} {r r' : Reading}
    (h : Turned step a r b r') : r.Acts r' := by
  induction h with
  | refl => exact .refl r
  | tail _ hstep ih => exact ih.trans (Acting.acts hstep)

end Read

/-- An expression that was read, from its first token to behind its last one: an operand with some
of the operators behind it, or a prefix expression with some of its suffixes. -/
inductive Expression.ReadAt (depth : Nat) (r : Reading) : Expression → Reading → Prop where
  | operand {parent : Nat} {left e : Expression} {r₀ r' : Reading} :
      (Read.unary (.upTo depth)).run r = some (left, r₀) →
      Read.Turned (Read.infixed (.upTo depth) parent r.current.span.start) left r₀ e r' →
      ReadAt depth r e r'
  | prefixed {head : Expression × Read.Shape} {e : Expression} {shape : Read.Shape}
      {r₀ r' : Reading} :
      (Read.prefixHead (.upTo depth)).run r = some (head, r₀) →
      Read.Turned (Read.suffix (.upTo depth) r.current.span.start) head r₀ (e, shape) r' →
      ReadAt depth r e r'

theorem Expression.ReadAt.acts {e : Expression} {depth : Nat} {r r' : Reading}
    (h : e.ReadAt depth r r') : r.Acts r' := by
  cases h with
  | operand hleft hturned => exact (Read.Acting.acts hleft).trans hturned.acts
  | prefixed hhead hturned => exact (Read.Acting.acts hhead).trans hturned.acts

namespace Node

/-- A node was read between two readings. The name of a function has at least one part, and what
declares a variable is a word. -/
def Origin (first last : Reading) : Node → Prop
  | .expression e => ∃ depth r r', first.Acts r ∧ r'.Acts last ∧
      e.span = ⟨r.current.span.start, r'.previousEnd⟩ ∧ e.ReadAt depth r r'
  | .statement s => ∃ depth r r', first.Acts r ∧ r'.Acts last ∧
      s.span = ⟨r.current.span.start, r'.previousEnd⟩ ∧
      (Read.statement (.upTo depth)).run r = some (some s, r')
  | .functionName f => f.path ≠ []
  | .declaration d => d.name.IsWord
  | .name n => n.IsWord
  | _ => True

theorem Origin.mono {first last last' : Reading} {n : Node} (h : n.Origin first last)
    (hacts : last.Acts last') : n.Origin first last' := by
  cases n with
  | expression e =>
    obtain ⟨depth, r, r', hr, hr', hspan, hread⟩ := h
    exact ⟨depth, r, r', hr, hr'.trans hacts, hspan, hread⟩
  | statement s =>
    obtain ⟨depth, r, r', hr, hr', hspan, hread⟩ := h
    exact ⟨depth, r, r', hr, hr'.trans hacts, hspan, hread⟩
  | functionName f => exact h
  | chunk c => trivial
  | block b => trivial
  | result x => trivial
  | elseIf e => trivial
  | otherwise b => trivial
  | field f => trivial
  | functionBody f => trivial
  | declaration d => exact h
  | name x => exact h

structure Sourced (first last : Reading) (n : Node) : Prop where
  framed : n.Framed
  origin : n.Origin first last

theorem Everywhere.imp {P Q : Node → Prop} {n : Node} (h : n.Everywhere P)
    (himp : ∀ m, P m → Q m) : n.Everywhere Q :=
  fun m hm => himp m (h m hm)

theorem Everywhere.mono {first last last' : Reading} {n : Node}
    (h : n.Everywhere (Sourced first last)) (hacts : last.Acts last') :
    n.Everywhere (Sourced first last') :=
  h.imp fun _ hm => ⟨hm.framed, hm.origin.mono hacts⟩

end Node

/-! ## What readers of nodes achieve -/

namespace Reading

/-- A reading that is reached from the first one. -/
structure Since (first r : Reading) : Prop where
  sound : r.Sound
  acts : first.Acts r

theorem Since.on {first r r' : Reading} (h : Since first r) (hacts : r.Acts r') :
    Since first r' :=
  ⟨hacts.sound h.sound, h.acts.trans hacts⟩

/-- Something was consumed, or made up in place of something absent. -/
structure Passes (r r' : Reading) : Prop where
  acts : r.Acts r'
  covers : r.current.span.start ≤ r'.previousEnd
  shorter : r'.Silent → r'.tokens.length < r.tokens.length

/-- Nodes were read one behind the other. -/
structure Lays (first : Reading) (lo : Nat) (ns : List Node) (r r' : Reading) : Prop where
  acts : r.Acts r'
  laid : Node.Laid lo r'.previousEnd ns
  nodes : ∀ n ∈ ns, n.Everywhere (Node.Sourced first r')

/-- A node was read, and all its children are known to be well placed. -/
structure Forms (first : Reading) (n : Node) (r r' : Reading) : Prop where
  passes : r.Passes r'
  span : n.span = ⟨r.current.span.start, r'.previousEnd⟩
  parts : Lays first r.current.span.start n.children r r'

/-- A node was read, and it is well placed with all nodes below it. -/
structure Builds (first : Reading) (n : Node) (r r' : Reading) : Prop where
  passes : r.Passes r'
  span : n.span = ⟨r.current.span.start, r'.previousEnd⟩
  everywhere : n.Everywhere (Node.Sourced first r')

variable {first r r₁ r₂ : Reading} {lo lo' : Nat} {ns ms : List Node} {n : Node}

namespace Passes

theorem trans (h : Passes r r₁) (hacts : r₁.Acts r₂) : Passes r r₂ where
  acts := h.acts.trans hacts
  covers := Nat.le_trans h.covers hacts.previousEnd_le
  shorter := fun hs =>
    Nat.lt_of_le_of_lt hacts.advances.length_le (h.shorter (hacts.advances.silent hs))

theorem after (hr : r.Sound) (hacts : r.Acts r₁) (h : Passes r₁ r₂) : Passes r r₂ where
  acts := hacts.trans h.acts
  covers := Nat.le_trans (hacts.start_le hr) h.covers
  shorter := fun hs => Nat.lt_of_lt_of_le (h.shorter hs) hacts.advances.length_le

/-- A stretch from the first token on ends where the last one does. -/
theorem max_eq (h : Passes r r₁) : max r₁.previousEnd r.current.span.start = r₁.previousEnd :=
  Nat.max_eq_left h.covers

end Passes

namespace Lays

theorem nil (hacts : r.Acts r₁) (hle : lo ≤ r₁.previousEnd) : Lays first lo [] r r₁ :=
  ⟨hacts, hle, by simp⟩

theorem low (h : Lays first lo ns r r₁) (hle : lo' ≤ lo) : Lays first lo' ns r r₁ :=
  ⟨h.acts, h.laid.low hle, h.nodes⟩

theorem trans (h : Lays first lo ns r r₁) (hacts : r₁.Acts r₂) : Lays first lo ns r r₂ :=
  ⟨h.acts.trans hacts, h.laid.high hacts.previousEnd_le, fun n hn => (h.nodes n hn).mono hacts⟩

theorem after (hacts : r.Acts r₁) (h : Lays first lo ns r₁ r₂) : Lays first lo ns r r₂ :=
  ⟨hacts.trans h.acts, h.laid, h.nodes⟩

theorem append (h : Lays first lo ns r r₁) (h' : Lays first r₁.previousEnd ms r₁ r₂) :
    Lays first lo (ns ++ ms) r r₂ where
  acts := h.acts.trans h'.acts
  laid := h.laid.append h'.laid
  nodes := by
    intro n hn
    rcases List.mem_append.1 hn with hn | hn
    · exact (h.nodes n hn).mono h'.acts
    · exact h'.nodes n hn

/-- What stands behind the first token of a node stands in the node. -/
theorem behind (h : Lays first r₁.previousEnd ns r₁ r₂) (hp : r.Passes r₁) :
    Lays first r.current.span.start ns r r₂ :=
  (h.low hp.covers).after hp.acts

/-- What stands behind other tokens stands behind the last token before them. -/
theorem skip (h : Lays first r₁.previousEnd ns r₁ r₂) (hacts : r.Acts r₁) :
    Lays first r.previousEnd ns r r₂ :=
  (h.low hacts.previousEnd_le).after hacts

end Lays

theorem Forms.builds (h : Forms first n r r₁) (horigin : n.Origin first r₁) :
    Builds first n r r₁ where
  passes := h.passes
  span := h.span
  everywhere := by
    refine Node.everywhere_iff.2 ⟨⟨?_, horigin⟩, h.parts.nodes⟩
    rw [Node.Framed, h.span]
    exact h.parts.laid

/-- A node whose stretch reaches from the first token that was read to the last one. -/
theorem Forms.of_parts (hp : r.Passes r₁)
    (hspan : n.span = ⟨r.current.span.start, max r₁.previousEnd r.current.span.start⟩)
    (hparts : Lays first r.current.span.start n.children r r₁) : Forms first n r r₁ :=
  ⟨hp, hspan.trans (congrArg (Span.mk _) hp.max_eq), hparts⟩

namespace Builds

theorem of_parts (hp : r.Passes r₁)
    (hspan : n.span = ⟨r.current.span.start, max r₁.previousEnd r.current.span.start⟩)
    (hparts : Lays first r.current.span.start n.children r r₁) (horigin : n.Origin first r₁) :
    Builds first n r r₁ :=
  (Forms.of_parts hp hspan hparts).builds horigin

theorem forms (h : Builds first n r r₁) : Forms first n r r₁ where
  passes := h.passes
  span := h.span
  parts := by
    obtain ⟨hn, hchildren⟩ := Node.everywhere_iff.1 h.everywhere
    have hframed := hn.framed
    rw [Node.Framed, h.span] at hframed
    exact ⟨h.passes.acts, hframed, hchildren⟩

theorem lays (h : Builds first n r r₁) : Lays first r.current.span.start [n] r r₁ where
  acts := h.passes.acts
  laid := by
    rw [Node.Laid, h.span]
    exact ⟨Nat.le_refl _, h.passes.covers, Nat.le_refl _⟩
  nodes := List.forall_mem_singleton.2 h.everywhere

/-- A node stands behind the last token before it. -/
theorem laysBehind (h : Builds first n r r₁) (hr : r.Sound) :
    Lays first r.previousEnd [n] r r₁ :=
  h.lays.low hr.start_ge

end Builds

/-- No token ends before it starts. -/
theorem Sound.start_le_stop (h : r.Sound) : r.current.span.start ≤ r.current.span.stop := by
  by_cases hk : r.current.kind = .endOfFile
  · exact Nat.le_of_eq (h.ordered.of_endOfFile hk).2
  · exact Nat.le_of_lt (h.ordered.tail hk).1

theorem Sound.start_le_taken (h : r.Sound) : r.current.span.start ≤ r.taken.previousEnd := by
  rw [previousEnd_taken]
  exact Nat.le_trans h.start_le_stop (Nat.le_max_right ..)

theorem Since.passes_taken (h : Since first r) (hk : r.current.kind ≠ .endOfFile) :
    r.Passes r.taken where
  acts := .single (.took r)
  covers := h.sound.start_le_taken
  shorter := fun _ => h.sound.length_taken hk

end Reading

namespace Read

variable {first r : Reading}

open Reading (Since)

theorem ensures_report {at_ : Span} {cause : Cause} (h : r.Sound) :
    Ensures (report at_ cause) r fun _ r' => r.Stalls r' ∧ r.Acts r' := by
  intro a r' hrun
  exact ⟨(yields_report h at_ cause).ensures a r' hrun, Acting.acts hrun⟩

/-- A token that is expected is consumed, or made up where it should stand. -/
theorem expect_passes (h : Since first r) {k : Kind} (hk : k ≠ .endOfFile) :
    Ensures (expect k) r fun t r' => r.Passes r' ∧
      t.span = ⟨r.current.span.start, r'.previousEnd⟩ := by
  unfold expect
  simp only [ensures_bind, ensures_kind, ensures_ite, ensures_take, ensures_span, ensures_supply]
  split
  next hkind =>
    have hne : r.current.kind ≠ .endOfFile := hkind ▸ hk
    have hlt := (h.sound.ordered.tail hne).1
    have hge := h.sound.start_ge
    refine ⟨h.passes_taken hne, ?_⟩
    rw [Reading.previousEnd_taken, Nat.max_eq_right (by omega)]
  next hkind =>
    refine (ensures_report h.sound).imp ?_
    rintro _ r₁ ⟨h₁, hacts⟩
    have hend : (r₁.supplied k).previousEnd = r.current.span.start := by
      have hge := h₁.sound.start_ge
      rw [Reading.supplied, Nat.max_eq_left hge, h₁.current]
    refine ⟨⟨hacts.trans (.single (.supplied r₁ k)), Nat.le_of_eq hend.symm, fun hs => ?_⟩, ?_⟩
    · refine absurd ?_ h₁.loud
      exact (Reading.Act.supplied r₁ k).advances.silent hs
    · rw [hend, ← hend]
      rfl

theorem name_builds (h : Since first r) :
    Ensures name r fun n r' => first.Builds (.name n) r r' := by
  have hforms : Ensures name r fun n r' => first.Forms (.name n) r r' := by
    unfold name
    simp only [ensures_bind, ensures_pure]
    refine (expect_passes h (by simp)).imp ?_
    rintro t r₁ ⟨h₁, hspan⟩
    exact ⟨h₁, hspan, .nil h₁.acts h₁.covers⟩
  intro n r' hrun
  exact (hforms n r' hrun).builds ((name_reads h.sound).ensures n r' hrun).2.1

/-! ## Lists -/

section Lists

variable {α : Type} {item : Read α} {node : α → Node} {separator : Kind}

theorem following_lays (hne : separator ≠ .endOfFile) [Acting item]
    (hitem : ∀ r, Since first r → Ensures item r fun a r' => first.Builds (node a) r r')
    (h : Since first r) :
    Ensures (following separator item) r fun as r' =>
      first.Lays r.previousEnd (as.map node) r r' := by
  unfold following
  refine Ensures.loop (fun as r₁ => first.Lays r.previousEnd (as.map node) r r₁)
    (.nil (.refl r) (Nat.le_refl _)) fun as r₁ h₁ => ?_
  simp only [ensures_bind, ensures_takeIf]
  split
  next hk =>
    have hsince := h.on h₁.acts
    have htaken := hsince.passes_taken (hk ▸ hne)
    simp only [if_true, ensures_bind, ensures_pure]
    refine (hitem _ (hsince.on htaken.acts)).imp fun a r₂ h₂ => ?_
    have hbehind := h₂.laysBehind (htaken.acts.sound hsince.sound)
    rw [List.map_append]
    exact h₁.append (hbehind.skip htaken.acts)
  · simp only [Bool.false_eq_true, if_false, ensures_pure]
    exact h₁

theorem separated_lays (hne : separator ≠ .endOfFile) [Acting item]
    (hitem : ∀ r, Since first r → Ensures item r fun a r' => first.Builds (node a) r r')
    (h : Since first r) :
    Ensures (separated separator item) r fun as r' =>
      r.Passes r' ∧ first.Lays r.current.span.start (as.map node) r r' ∧ as ≠ [] := by
  unfold separated
  simp only [ensures_bind, ensures_pure]
  refine (hitem r h).imp fun a r₁ h₁ => ?_
  refine (following_lays hne hitem (h.on h₁.passes.acts)).imp fun as r₂ h₂ => ?_
  exact ⟨h₁.passes.trans h₂.acts, h₁.lays.append h₂, by simp⟩

end Lists

end Read

/-! ## Expressions -/

/-- What the readers of nested constructs achieve. A block may be empty, and is then placed behind
the last token before it. -/
structure Nested.Lays (depth : Nat) (first : Reading) : Prop where
  operand : ∀ parent r, Reading.Since first r →
    Read.Ensures ((Nested.upTo depth).operand parent) r fun e r' =>
      first.Builds (.expression e) r r'
  block : ∀ r, Reading.Since first r → Read.Ensures (Nested.upTo depth).block r fun b r' =>
    first.Lays r.previousEnd [.block b] r r'

namespace Read

variable {first r : Reading} {depth : Nat}

open Reading (Since)

theorem expression_builds (hin : Nested.Lays depth first) (h : Since first r) :
    Ensures (Nested.upTo depth).expression r fun e r' => first.Builds (.expression e) r r' :=
  hin.operand 0 r h

theorem expressions_lays (hin : Nested.Lays depth first) (h : Since first r) :
    Ensures (Nested.upTo depth).expressions r fun es r' =>
      r.Passes r' ∧ first.Lays r.current.span.start (es.map .expression) r r' := by
  unfold Nested.expressions
  refine (separated_lays (by simp) (fun r' h' => expression_builds hin h') h).imp ?_
  exact fun es r' hes => ⟨hes.1, hes.2.1⟩

theorem parameters_lays (h : Since first r) :
    Ensures parameters r fun p r' => first.Lays r.previousEnd (p.1.map .name) r r' := by
  unfold parameters
  simp only [ensures_bind, ensures_kind, ensures_ite, ensures_pure]
  split
  · exact .nil (.refl r) (Nat.le_refl _)
  refine Ensures.loop (fun names r₁ => first.Lays r.previousEnd (names.map .name) r r₁)
    (.nil (.refl r) (Nat.le_refl _)) fun names r₁ h₁ => ?_
  simp only [ensures_bind, ensures_takeIf]
  split
  · simp only [if_true, ensures_pure]
    exact h₁.trans (.single (.took r₁))
  · simp only [Bool.false_eq_true, if_false, ensures_bind]
    have hsince := h.on h₁.acts
    refine (name_builds hsince).imp fun n r₂ h₂ => ?_
    have hmore : first.Lays r.previousEnd ((names ++ [n]).map .name) r r₂ := by
      rw [List.map_append]
      exact h₁.append (h₂.laysBehind hsince.sound)
    rw [ensures_takeIf]
    split
    · simp only [if_true, ensures_pure]
      exact hmore.trans (.single (.took r₂))
    · simp only [Bool.false_eq_true, if_false, ensures_pure]
      exact hmore

theorem functionBody_builds (hin : Nested.Lays depth first) (h : Since first r) :
    Ensures (functionBody (.upTo depth)) r fun f r' => first.Builds (.functionBody f) r r' := by
  unfold functionBody
  simp only [ensures_bind, ensures_start, ensures_spanFrom, ensures_pure]
  refine (expect_passes h (by simp)).imp ?_
  rintro _ r₁ ⟨h₁, _⟩
  have hs₁ := h.on h₁.acts
  refine (parameters_lays hs₁).imp fun p r₂ h₂ => ?_
  have hs₂ := hs₁.on h₂.acts
  refine (expect_passes hs₂ (by simp)).imp ?_
  rintro _ r₃ ⟨h₃, _⟩
  have hs₃ := hs₂.on h₃.acts
  refine (hin.block r₃ hs₃).imp fun b r₄ h₄ => ?_
  have hs₄ := hs₃.on h₄.acts
  refine (expect_passes hs₄ (by simp)).imp ?_
  rintro _ r₅ ⟨h₅, _⟩
  have hlays := (h₂.append (h₄.skip h₃.acts)).trans h₅.acts
  exact .of_parts (h₁.trans hlays.acts) rfl (hlays.behind h₁) trivial

theorem literal_forms (h : Since first r) (hk : r.current.kind ≠ .endOfFile) :
    Ensures literal r fun e r' => first.Forms (.expression e) r r' := by
  have hlt := (h.sound.ordered.tail hk).1
  have hge := h.sound.start_ge
  have hpasses := h.passes_taken hk
  unfold literal
  simp only [ensures_bind, ensures_take, ensures_pure]
  refine ⟨hpasses, ?_, .nil hpasses.acts hpasses.covers⟩
  rw [Reading.previousEnd_taken, Nat.max_eq_right (by omega)]
  rfl

theorem field_builds (hin : Nested.Lays depth first) (h : Since first r) :
    Ensures (field (.upTo depth)) r fun f r' => first.Builds (.field f) r r' := by
  have hpositional (r₁ : Reading) (hacts : r.Acts r₁) (hcurrent : r₁.current = r.current) :
      Ensures (Nested.upTo depth).expression r₁ fun value r' =>
        first.Builds (.field (.positional value ⟨r.current.span.start,
          max r'.previousEnd r.current.span.start⟩)) r r' := by
    refine (expression_builds hin (h.on hacts)).imp fun value r₂ h₂ => ?_
    have hpasses := h₂.passes.after h.sound hacts
    have hlays := h₂.lays.after hacts
    rw [hcurrent] at hlays
    exact .of_parts hpasses rfl hlays trivial
  unfold field
  simp only [ensures_bind, ensures_start, ensures_kind, ensures_ite, ensures_pure, ensures_take,
    ensures_spanFrom]
  by_cases hname : r.current.kind = .name
  · rw [if_pos hname]
    refine ((yields_peekKind h.sound).ensures.and fun k r' hrun => Acting.acts hrun).imp ?_
    rintro k r₁ ⟨⟨hrests, _⟩, hacts⟩
    have hs₁ := h.on hacts
    rw [if_neg (by simp [hrests.current, hname])]
    simp only [decide_eq_true_eq]
    split
    · refine (name_builds hs₁).imp fun n r₂ h₂ => ?_
      have htook : r₂.Acts r₂.taken := .single (.took r₂)
      have hpasses := (h₂.passes.trans htook).after h.sound hacts
      have hs₃ := h.on hpasses.acts
      refine (expression_builds hin hs₃).imp fun value r₄ h₄ => ?_
      exact .of_parts (hpasses.trans h₄.passes.acts) rfl
        ((h₄.laysBehind hs₃.sound).behind hpasses) trivial
    · exact hpositional r₁ hacts hrests.current
  · rw [if_neg hname]
    split
    next hk =>
      have h₁ := h.passes_taken (by simp [hk])
      have hs₁ := h.on h₁.acts
      refine (expression_builds hin hs₁).imp fun key r₂ h₂ => ?_
      have hs₂ := hs₁.on h₂.passes.acts
      refine (expect_passes hs₂ (by simp)).imp ?_
      rintro _ r₃ ⟨h₃, _⟩
      have hs₃ := hs₂.on h₃.acts
      refine (expect_passes hs₃ (by simp)).imp ?_
      rintro _ r₄ ⟨h₄, _⟩
      have hs₄ := hs₃.on h₄.acts
      refine (expression_builds hin hs₄).imp fun value r₅ h₅ => ?_
      have hvalue := (h₅.laysBehind hs₄.sound).skip (h₃.acts.trans h₄.acts)
      have hlays := (h₂.laysBehind hs₁.sound).append hvalue
      exact .of_parts (h₁.trans hlays.acts) rfl (hlays.behind h₁) trivial
    · rw [if_neg (by simp)]
      exact hpositional r (.refl r) rfl

theorem table_forms (hin : Nested.Lays depth first) (h : Since first r) :
    Ensures (table (.upTo depth)) r fun e r' => first.Forms (.expression e) r r' := by
  unfold table
  simp only [ensures_bind, ensures_start]
  refine (expect_passes h (by simp)).imp ?_
  rintro _ r₁ ⟨h₁, _⟩
  have hs₁ := h.on h₁.acts
  refine Ensures.imp (Ensures.loop
    (Q := fun fs r' => first.Lays r₁.previousEnd (fs.map .field) r₁ r')
    (fun fs r' => first.Lays r₁.previousEnd (fs.map .field) r₁ r')
    (.nil (.refl r₁) (Nat.le_refl _)) ?_) ?_
  · intro fs r₂ h₂
    simp only [ensures_bind, ensures_kind, ensures_ite, ensures_pure, ensures_take]
    split
    · exact h₂
    have hs₂ := hs₁.on h₂.acts
    refine (field_builds hin hs₂).imp fun f r₃ h₃ => ?_
    have hmore : first.Lays r₁.previousEnd ((fs ++ [f]).map .field) r₁ r₃ := by
      rw [List.map_append]
      exact h₂.append (h₃.laysBehind hs₂.sound)
    split
    · exact hmore.trans (.single (.took r₃))
    · exact hmore
  · intro fs r₂ h₂
    have hs₂ := hs₁.on h₂.acts
    simp only [ensures_spanFrom, ensures_pure]
    refine (expect_passes hs₂ (by simp)).imp ?_
    rintro _ r₃ ⟨h₃, _⟩
    have hlays := h₂.trans h₃.acts
    exact .of_parts (h₁.trans hlays.acts) rfl (hlays.behind h₁)

/-! ## Prefix expressions -/

/-- A string or a table is an expression by itself, wherever it is read. -/
theorem argument_builds {m : Read Expression} (h : Since first r)
    (hm : Ensures m r fun e r' => first.Forms (.expression e) r r')
    (hunary : (unary (.upTo depth)).run r = m.run r) :
    Ensures m r fun e r' => first.Builds (.expression e) r r' := by
  intro e r' hrun
  have hforms := hm e r' hrun
  refine hforms.builds ⟨depth, r, r', h.acts, .refl r', hforms.span, ?_⟩
  exact @Expression.ReadAt.operand depth r 0 _ _ _ _ (hunary.trans hrun) .refl

theorem run_kind_bind {α : Type} (k : Kind → Read α) (r : Reading) :
    (kind >>= k).run r = (k r.current.kind).run r := rfl

theorem run_start_bind {α : Type} (k : Nat → Read α) (r : Reading) :
    (start >>= k).run r = (k r.current.span.start).run r := rfl

theorem run_unary_string (inner : Nested) (hk : r.current.kind = .string) :
    (unary inner).run r = literal.run r := by
  rw [unary, run_start_bind, run_kind_bind, hk]
  change (primary inner).run r = _
  rw [primary, run_start_bind, run_kind_bind, hk]

theorem run_unary_table (inner : Nested) (hk : r.current.kind = .sign .openBrace) :
    (unary inner).run r = (table inner).run r := by
  rw [unary, run_start_bind, run_kind_bind, hk]
  change (primary inner).run r = _
  rw [primary, run_start_bind, run_kind_bind, hk]

theorem arguments_lays (hin : Nested.Lays depth first) (h : Since first r) :
    Ensures (arguments (.upTo depth)) r fun es r' =>
      r.Passes r' ∧ first.Lays r.current.span.start (es.map .expression) r r' := by
  unfold arguments
  simp only [ensures_bind, ensures_kind]
  split
  next hk =>
    simp only [ensures_bind, ensures_pure]
    refine (argument_builds h (literal_forms h (by simp [hk])) (run_unary_string (.upTo depth) hk)).imp ?_
    exact fun e r₁ h₁ => ⟨h₁.passes, h₁.lays⟩
  next hk =>
    simp only [ensures_bind, ensures_pure]
    refine (argument_builds h (table_forms hin h) (run_unary_table (.upTo depth) hk)).imp ?_
    exact fun e r₁ h₁ => ⟨h₁.passes, h₁.lays⟩
  next hstring hbrace =>
    simp only [ensures_bind, ensures_kind, ensures_ite, ensures_pure]
    refine (expect_passes h (by simp)).imp ?_
    rintro _ r₁ ⟨h₁, _⟩
    have hs₁ := h.on h₁.acts
    split
    · refine (expect_passes hs₁ (by simp)).imp ?_
      rintro _ r₂ ⟨h₂, _⟩
      have hpasses := h₁.trans h₂.acts
      exact ⟨hpasses, .nil hpasses.acts hpasses.covers⟩
    · refine (expressions_lays hin hs₁).imp ?_
      rintro es r₂ ⟨h₂, hlays⟩
      have hs₂ := hs₁.on h₂.acts
      refine (expect_passes hs₂ (by simp)).imp ?_
      rintro _ r₃ ⟨h₃, _⟩
      have hlays := (hlays.low hs₁.sound.start_ge).trans h₃.acts
      exact ⟨h₁.trans hlays.acts, hlays.behind h₁⟩

theorem prefixHead_forms (hin : Nested.Lays depth first) (h : Since first r) :
    Ensures (prefixHead (.upTo depth)) r fun e r' => first.Forms (.expression e.1) r r' := by
  unfold prefixHead
  simp only [ensures_bind, ensures_start, ensures_kind]
  split
  next =>
    simp only [ensures_bind, ensures_pure]
    refine (name_builds h).imp fun n r₁ h₁ => ?_
    exact ⟨h₁.passes, h₁.span, .nil h₁.passes.acts h₁.passes.covers⟩
  next hk =>
    simp only [ensures_bind, ensures_take, ensures_spanFrom, ensures_pure]
    have h₁ := h.passes_taken (by simp [hk])
    have hs₁ := h.on h₁.acts
    refine (expression_builds hin hs₁).imp fun e r₂ h₂ => ?_
    refine (expect_passes (hs₁.on h₂.passes.acts) (by simp)).imp ?_
    rintro _ r₃ ⟨h₃, _⟩
    have hlays := (h₂.laysBehind hs₁.sound).trans h₃.acts
    exact .of_parts (h₁.trans hlays.acts) rfl (hlays.behind h₁)
  next actual _ _ =>
    simp only [ensures_bind, ensures_span, ensures_supply, ensures_pure]
    refine (ensures_report h.sound).imp ?_
    rintro _ r₁ ⟨h₁, hacts⟩
    have hend : (r₁.supplied .name).previousEnd = r.current.span.start := by
      rw [Reading.supplied, Nat.max_eq_left h₁.sound.start_ge, h₁.current]
    have hpasses : r.Passes (r₁.supplied .name) := by
      refine ⟨hacts.trans (.single (.supplied r₁ .name)), Nat.le_of_eq hend.symm, fun hs => ?_⟩
      exact absurd ((Reading.Act.supplied r₁ .name).advances.silent hs) h₁.loud
    refine ⟨hpasses, ?_, .nil hpasses.acts hpasses.covers⟩
    rw [hend, ← hend]
    rfl

theorem suffix_forms (hin : Nested.Lays depth first) (h : Since first r) {e : Expression × Shape}
    {r₁ : Reading} (he : first.Builds (.expression e.1) r r₁) :
    Ensures (suffix (.upTo depth) r.current.span.start e) r₁ fun x r' =>
      match x with
      | .inl e' => first.Forms (.expression e'.1) r r'
      | .inr e' => e' = e ∧ r' = r₁ := by
  have hs₁ := h.on he.passes.acts
  have hcall (r₂ : Reading) (hacts : r₁.Acts r₂) (method : Option Name) :
      Ensures (arguments (.upTo depth)) r₂ fun es r' =>
        first.Forms (.expression (.call e.1 method es
          ⟨r.current.span.start, max r'.previousEnd r.current.span.start⟩)) r r' := by
    have hs₂ := hs₁.on hacts
    refine (arguments_lays hin hs₂).imp ?_
    rintro es r₃ ⟨h₃, hes⟩
    have hlays := he.lays.append ((hes.low hs₂.sound.start_ge).skip hacts)
    exact .of_parts (he.passes.trans (hacts.trans h₃.acts)) rfl hlays
  unfold suffix
  simp only [ensures_bind, ensures_kind]
  split
  next =>
    simp only [ensures_bind, ensures_take, ensures_spanFrom, ensures_pure]
    have hacts : r₁.Acts r₁.taken := .single (.took r₁)
    refine (name_builds (hs₁.on hacts)).imp fun n r₂ h₂ => ?_
    have hlays := he.lays.trans (hacts.trans h₂.passes.acts)
    exact .of_parts (he.passes.trans (hacts.trans h₂.passes.acts)) rfl hlays
  next =>
    simp only [ensures_bind, ensures_take, ensures_spanFrom, ensures_pure]
    have hacts : r₁.Acts r₁.taken := .single (.took r₁)
    have hs₂ := hs₁.on hacts
    refine (expression_builds hin hs₂).imp fun index r₂ h₂ => ?_
    refine (expect_passes (hs₂.on h₂.passes.acts) (by simp)).imp ?_
    rintro _ r₃ ⟨h₃, _⟩
    have hlays := (he.lays.append ((h₂.laysBehind hs₂.sound).skip hacts)).trans h₃.acts
    exact .of_parts (he.passes.trans (hacts.trans (h₂.passes.acts.trans h₃.acts))) rfl hlays
  next =>
    simp only [ensures_bind, ensures_take, ensures_spanFrom, ensures_pure]
    have hacts : r₁.Acts r₁.taken := .single (.took r₁)
    refine (name_builds (hs₁.on hacts)).imp fun n r₂ h₂ => ?_
    exact hcall r₂ (hacts.trans h₂.passes.acts) (some n)
  iterate 3
    · simp only [ensures_bind, ensures_spanFrom, ensures_pure]
      exact hcall r₁ (.refl r₁) none
  next =>
    rw [ensures_pure]
    exact ⟨rfl, rfl⟩

/-- Every expression that the loop over suffixes has at some turn is one that was read. -/
theorem prefixExpression_builds (hin : Nested.Lays depth first) (h : Since first r) :
    Ensures (prefixExpression (.upTo depth)) r fun e r' => first.Builds (.expression e.1) r r' := by
  unfold prefixExpression
  simp only [ensures_bind, ensures_start]
  have horigin {head : Expression × Shape} {r₀ : Reading}
      (hhead : (prefixHead (.upTo depth)).run r = some (head, r₀)) {e : Expression × Shape}
      {r' : Reading} (hforms : first.Forms (.expression e.1) r r')
      (hturned : Turned (suffix (.upTo depth) r.current.span.start) head r₀ e r') :
      first.Builds (.expression e.1) r r' :=
    hforms.builds ⟨depth, r, r', h.acts, .refl r', hforms.span, .prefixed hhead hturned⟩
  refine ((prefixHead_forms hin h).and (ensures_run _ _)).imp ?_
  rintro head r₀ ⟨h₀, hhead⟩
  refine Ensures.loop (fun e r' => first.Builds (.expression e.1) r r' ∧
    Turned (suffix (.upTo depth) r.current.span.start) head r₀ e r')
    ⟨horigin hhead h₀ .refl, .refl⟩ ?_
  rintro e r₁ ⟨he, hturned⟩
  refine ((suffix_forms hin h he).and (ensures_run _ _)).imp ?_
  rintro x r₂ ⟨hx, hrun⟩
  cases x with
  | inl e' => exact ⟨horigin hhead hx (hturned.tail hrun), hturned.tail hrun⟩
  | inr e' =>
    obtain ⟨rfl, rfl⟩ := hx
    exact he

/-! ## Operators -/

theorem primary_forms (hin : Nested.Lays depth first) (h : Since first r) :
    Ensures (primary (.upTo depth)) r fun e r' => first.Forms (.expression e) r r' := by
  unfold primary
  simp only [ensures_bind, ensures_start, ensures_kind]
  split
  iterate 6
    · rename_i hk
      exact literal_forms h (by simp [hk])
  next hk =>
    simp only [ensures_bind, ensures_take, ensures_spanFrom, ensures_pure]
    have h₁ := h.passes_taken (by simp [hk])
    exact .of_parts h₁ rfl (.nil h₁.acts h₁.covers)
  next hk =>
    simp only [ensures_bind, ensures_take, ensures_spanFrom, ensures_pure]
    have h₁ := h.passes_taken (by simp [hk])
    have hs₁ := h.on h₁.acts
    refine (functionBody_builds hin hs₁).imp fun f r₂ h₂ => ?_
    exact .of_parts (h₁.trans h₂.passes.acts) rfl ((h₂.laysBehind hs₁.sound).behind h₁)
  next => exact table_forms hin h
  next =>
    simp only [ensures_bind, ensures_pure]
    exact (prefixExpression_builds hin h).imp fun e r₁ h₁ => h₁.forms

theorem unary_forms (hin : Nested.Lays depth first) (h : Since first r) :
    Ensures (unary (.upTo depth)) r fun e r' => first.Forms (.expression e) r r' := by
  unfold unary
  simp only [ensures_bind, ensures_start, ensures_kind]
  split
  next op hop =>
    have hk := UnaryOperator.kind_of_ofKind? hop
    simp only [ensures_bind, ensures_take, ensures_spanFrom, ensures_pure]
    have h₁ := h.passes_taken (hk ▸ op.kind_ne_endOfFile)
    have hs₁ := h.on h₁.acts
    refine (hin.operand _ _ hs₁).imp fun e r₂ h₂ => ?_
    exact .of_parts (h₁.trans h₂.passes.acts) rfl ((h₂.laysBehind hs₁.sound).behind h₁)
  next => exact primary_forms hin h

theorem infixed_forms (hin : Nested.Lays depth first) (h : Since first r) {parent : Nat}
    {left : Expression} {r₁ : Reading} (hleft : first.Builds (.expression left) r r₁) :
    Ensures (infixed (.upTo depth) parent r.current.span.start left) r₁ fun x r' =>
      match x with
      | .inl e => first.Forms (.expression e) r r'
      | .inr e => e = left ∧ r' = r₁ := by
  unfold infixed
  simp only [ensures_bind, ensures_kind]
  split
  next op hop =>
    simp only [ensures_ite, ensures_bind, ensures_take, ensures_spanFrom, ensures_pure]
    split
    · have hacts : r₁.Acts r₁.taken := .single (.took r₁)
      have hs₂ := (h.on hleft.passes.acts).on hacts
      refine (hin.operand _ _ hs₂).imp fun right r₃ h₃ => ?_
      have hlays := hleft.lays.append ((h₃.laysBehind hs₂.sound).skip hacts)
      exact .of_parts (hleft.passes.trans (hacts.trans h₃.passes.acts)) rfl hlays
    · exact ⟨trivial, trivial⟩
  next =>
    rw [ensures_pure]
    exact ⟨rfl, rfl⟩

/-- Every expression that the loop over operators has at some turn is one that was read. -/
theorem operand_builds (hin : Nested.Lays depth first) (h : Since first r) (parent : Nat) :
    Ensures (operand (.upTo depth) parent) r fun e r' => first.Builds (.expression e) r r' := by
  unfold operand
  simp only [ensures_bind, ensures_start]
  have horigin {left : Expression} {r₀ : Reading}
      (hleft : (unary (.upTo depth)).run r = some (left, r₀)) {e : Expression} {r' : Reading}
      (hforms : first.Forms (.expression e) r r')
      (hturned : Turned (infixed (.upTo depth) parent r.current.span.start) left r₀ e r') :
      first.Builds (.expression e) r r' :=
    hforms.builds ⟨depth, r, r', h.acts, .refl r', hforms.span, .operand hleft hturned⟩
  refine ((unary_forms hin h).and (ensures_run _ _)).imp ?_
  rintro left r₀ ⟨h₀, hleft⟩
  refine Ensures.loop (fun e r' => first.Builds (.expression e) r r' ∧
    Turned (infixed (.upTo depth) parent r.current.span.start) left r₀ e r')
    ⟨horigin hleft h₀ .refl, .refl⟩ ?_
  rintro e r₁ ⟨he, hturned⟩
  refine ((infixed_forms hin h he).and (ensures_run _ _)).imp ?_
  rintro x r₂ ⟨hx, hrun⟩
  cases x with
  | inl e' => exact ⟨horigin hleft hx (hturned.tail hrun), hturned.tail hrun⟩
  | inr e' =>
    obtain ⟨rfl, rfl⟩ := hx
    exact he

end Read
end Syntax
end LuaFront
