import LuaFront.Proofs.Resolved.Origin
import Mathlib.Data.List.Nodup

/-!
# LuaFront.Proofs.Resolved.Jumps

Flattening keeps the labels of a program, makes each loop's end a label, and adds labels of its own.

* `Kept`: of what labels flattening makes labels, and that jumps in functions land.
* `Landed`: the jumps in a list of statements land, given what is visible there.
* `Program.flatten_jumps`: no jump of a flattened program dangles, and none has two targets.
-/

namespace LuaFront
namespace Resolved

/-! ## Labels that flattening makes up -/

/-- The label that is made up as number `k`. -/
def Label.made (k : Nat) : Label := ⟨.generated k, s!"label#{k}"⟩

/-- One for the symbols that are made up from behind number `n` up to number `n'`. -/
def madeBetween (n n' : Nat) : SymbolId → Nat
  | .declared .. => 0
  | .generated k => between (n + 1) (n' + 1) k

theorem madeBetween_add {n m n' : Nat} (h₁ : n ≤ m) (h₂ : m ≤ n') (id : SymbolId) :
    madeBetween n m id + madeBetween m n' id = madeBetween n n' id := by
  cases id with
  | declared unit index => rfl
  | generated k => exact congrFun (between_add (Nat.succ_le_succ h₁) (Nat.succ_le_succ h₂)) k

/-- The labels of a flat body and of the bodies in it. -/
def labelsOf (own : List Label) (inner : List Block) : List Label :=
  own ++ inner.flatMap Block.labels

theorem occurrences_labelsOf_append (id : SymbolId) (a b : List Label) (fs gs : List Block) :
    occurrences id (labelsOf (a ++ b) (fs ++ gs)) =
      occurrences id (labelsOf a fs) + occurrences id (labelsOf b gs) := by
  simp only [labelsOf, List.flatMap_append, occurrences_append]
  omega

theorem mem_labelsOf_append {l : Label} {a b : List Label} {fs gs : List Block} :
    l ∈ labelsOf (a ++ b) (fs ++ gs) ↔ l ∈ labelsOf a fs ∨ l ∈ labelsOf b gs := by
  simp only [labelsOf, List.flatMap_append, List.mem_append]
  tauto

/-- Flattening from number `n` to number `n'` makes of a piece with labels `own` and function
bodies `inner` one with `own'` and `inner'`. -/
structure Kept (n n' : Nat) (own : List Label) (inner : List Block) (own' : List Label)
    (inner' : List Block) : Prop where
  le : n ≤ n'
  count : ∀ id, occurrences id (labelsOf own' inner') ≤
    occurrences id (marksOf own inner) + madeBetween n n' id
  origin : ∀ l ∈ labelsOf own' inner', l ∈ marksOf own inner ∨ ∃ k, l = .made k
  lands : (∀ f ∈ inner, Scoped.block [] f) → ∀ f ∈ inner', ∀ j ∈ f.jumps, j.Lands

namespace Kept

variable {n m n' : Nat} {a b a' b' : List Label} {fs gs fs' gs' : List Block}

theorem nothing (h : n ≤ n') : Kept n n' [] [] [] [] :=
  ⟨h, by simp [labelsOf], by simp [labelsOf], by simp⟩

theorem append (h : Kept n m a fs a' fs') (h' : Kept m n' b gs b' gs') :
    Kept n n' (a ++ b) (fs ++ gs) (a' ++ b') (fs' ++ gs') where
  le := Nat.le_trans h.le h'.le
  count := by
    intro id
    rw [occurrences_labelsOf_append, occurrences_marksOf_append, ← madeBetween_add h.le h'.le]
    have h₁ := h.count id
    have h₂ := h'.count id
    omega
  origin := by
    intro l hl
    rw [mem_marksOf_append]
    rcases mem_labelsOf_append.1 hl with hl | hl
    · exact (h.origin l hl).imp_left .inl
    · exact (h'.origin l hl).imp_left .inr
  lands := by
    intro hscoped f hf
    rw [List.forall_mem_append] at hscoped
    rcases List.mem_append.1 hf with hf | hf
    · exact h.lands hscoped.1 f hf
    · exact h'.lands hscoped.2 f hf

/-- A label that is there already. -/
theorem label (n : Nat) (l : Label) : Kept n n [l] [] [l] [] where
  le := Nat.le_refl n
  count id := Nat.le_add_right ..
  origin l' hl' := .inl hl'
  lands := by simp

theorem made (n : Nat) : Kept n (n + 1) [] [] [.made (n + 1)] [] where
  le := Nat.le_succ n
  count id := by
    cases id with
    | declared unit index => simp [labelsOf, occurrences_cons, Label.made]
    | generated k =>
      simp only [labelsOf, marksOf, List.flatMap_nil, List.append_nil, occurrences_cons,
        occurrences_nil, Label.made, SymbolId.generated.injEq, madeBetween, between]
      split_ifs <;> omega
  origin l hl := by
    simp only [labelsOf, List.flatMap_nil, List.append_nil, List.mem_singleton] at hl
    exact .inr ⟨n + 1, hl⟩
  lands := by simp

/-- Labels may be put elsewhere. -/
theorem perm {c : List Label} (h : Kept n n' a fs a' fs') (hp : c.Perm a') :
    Kept n n' a fs c fs' where
  le := h.le
  count id := by
    have hperm : (labelsOf c fs').Perm (labelsOf a' fs') := hp.append_right _
    rw [show occurrences id (labelsOf c fs') = occurrences id (labelsOf a' fs') from
      hperm.countP_eq _]
    exact h.count id
  origin l hl := h.origin l ((hp.append_right _).mem_iff.1 hl)
  lands := h.lands

theorem function {f f' : Block} (h : Kept n n' f.marks (Bodies.block f) f'.labels (Bodies.block f'))
    (hlands : Scoped.block [] f → ∀ j ∈ f'.jumps, j.Lands) :
    Kept n n' [] f.bodies [] f'.bodies where
  le := h.le
  count := h.count
  origin := h.origin
  lands hscoped := by
    obtain ⟨hf, hinner⟩ := List.forall_mem_cons.1 hscoped
    exact List.forall_mem_cons.2 ⟨hlands hf, h.lands hinner⟩

end Kept

/-! ## Jumps that land -/

/-- With these labels visible, all jumps in a list of statements land. -/
def Landed (visible : List Label) (b : Block) : Prop := ∀ j ∈ Jumps.list visible b, j.Lands

section

variable {v : List Label} {a b : Block} {l : Label}

@[simp]
theorem landed_nil : Landed v [] := by simp [Landed, Jumps.list]

@[simp]
theorem landed_append : Landed v (a ++ b) ↔ Landed v a ∧ Landed v b := by
  simp [Landed, or_imp, forall_and]

@[simp]
theorem landed_cons {s : Statement} :
    Landed v (s :: b) ↔ (∀ j ∈ Jumps.statement v s, j.Lands) ∧ Landed v b := by
  simp [Landed, Jumps.list, or_imp, forall_and]

end

/-- A list of statements that comes of one with labels `hs`, whose scope grants a place for all its
jumps if `P` holds of it. -/
structure Spliced (hs : List Label) (P : List Label → Prop) (b : Block) : Prop where
  heads : hs ⊆ b.heads
  landed : ∀ visible visible', P visible → visible ⊆ visible' → b.heads ⊆ visible' →
    Landed visible' b

namespace Spliced

variable {hs hs' : List Label} {P Q : List Label → Prop} {a b : Block}

/-- A statement that stays one statement. -/
theorem plain {s s' : Statement} (hlabel : s'.labels = s.labels)
    (h : ∀ v v', Scoped.statement v s → v ⊆ v' → ∀ j ∈ Jumps.statement v' s', j.Lands) :
    Spliced s.labels (Scoped.statement · s) [s'] where
  heads := by simp [hlabel]
  landed v v' hscoped hv hheads := landed_cons.2 ⟨h v v' hscoped hv, landed_nil⟩

theorem append (h : Spliced hs P a) (h' : Spliced hs' Q b) :
    Spliced (hs ++ hs') (fun v => P v ∧ Q v) (a ++ b) where
  heads := by
    rw [Block.heads_append]
    exact List.append_subset.2 ⟨List.subset_append_of_subset_left _ h.heads,
      List.subset_append_of_subset_right _ h'.heads⟩
  landed v v' hscoped hv hheads := by
    rw [Block.heads_append, List.append_subset] at hheads
    exact landed_append.2 ⟨h.landed v v' hscoped.1 hv hheads.1, h'.landed v v' hscoped.2 hv hheads.2⟩

/-- The labels of a block are visible in it. -/
theorem block {v v' : List Label} {c : Block} (h : Spliced c.heads (Scoped.list · c) b)
    (hscoped : Scoped.block v c) (hv : v ⊆ v') (hheads : b.heads ⊆ v') : Landed v' b :=
  h.landed _ v' hscoped (List.append_subset.2 ⟨List.Subset.trans h.heads hheads, hv⟩) hheads

end Spliced

/-! ## Every construct -/

namespace Flatten

theorem freshLabel_yields (n : Nat) :
    Yields n freshLabel fun l n' => l = .made (n + 1) ∧ n' = n + 1 :=
  ⟨rfl, rfl⟩

theorem freshLocal_yields (name : String) (n : Nat) :
    Yields n (freshLocal name) fun _ n' => n' = n + 1 :=
  rfl

section

variable (symbols : List Local) (iterator state control : Local) (exit : Label)

theorem labels_nextValues :
    Block.labels (nextValues symbols iterator state control exit) = [] := by
  cases symbols <;> simp [nextValues, Statement.labels]

theorem heads_nextValues :
    Block.heads (nextValues symbols iterator state control exit) = [] := by
  cases symbols <;> simp [nextValues, Statement.labels]

theorem bodies_nextValues :
    Bodies.block (nextValues symbols iterator state control exit) = [] := by
  cases symbols <;> simp [nextValues, Expression.nil]

theorem landed_nextValues {v : List Label} (h : exit ∈ v) :
    Landed v (nextValues symbols iterator state control exit) := by
  cases symbols <;> simp [nextValues, Jump.Lands, h]

end

mutual

theorem expression_kept (e : Expression) (n : Nat) :
    Yields n (expression e) fun e' n' =>
      Kept n n' [] (Bodies.expression e) [] (Bodies.expression e') := by
  cases e with
  | literal | name | vararg | error => exact .nothing (Nat.le_refl n)
  | function parameters vararg body =>
    rw [expression]
    refine (block_kept body n).bind fun b n₁ h₁ => ?_
    exact Yields.pure (h₁.1.function fun hscoped =>
      h₁.2.block hscoped (List.nil_subset _) (List.Subset.refl _))
  | table entries =>
    rw [expression]
    exact (fields_kept entries n).bind fun fs n₁ h₁ => Yields.pure h₁
  | unary op operand =>
    rw [expression]
    exact (expression_kept operand n).bind fun a n₁ h₁ => Yields.pure h₁
  | binary left op right =>
    rw [expression]
    refine (expression_kept left n).bind fun a n₁ h₁ => ?_
    exact (expression_kept right n₁).bind fun b n₂ h₂ => Yields.pure (h₁.append h₂)
  | parenthesized inner =>
    rw [expression]
    exact (expression_kept inner n).bind fun a n₁ h₁ => Yields.pure h₁
  | call receiver method arguments =>
    rw [expression]
    refine (expression_kept receiver n).bind fun a n₁ h₁ => ?_
    exact (expressions_kept arguments n₁).bind fun as n₂ h₂ => Yields.pure (h₁.append h₂)
  | index target index =>
    rw [expression]
    refine (expression_kept target n).bind fun a n₁ h₁ => ?_
    exact (expression_kept index n₁).bind fun b n₂ h₂ => Yields.pure (h₁.append h₂)

theorem expressions_kept (es : List Expression) (n : Nat) :
    Yields n (expressions es) fun es' n' =>
      Kept n n' [] (Bodies.expressions es) [] (Bodies.expressions es') := by
  cases es with
  | nil => exact .nothing (Nat.le_refl n)
  | cons e later =>
    rw [expressions]
    refine (expression_kept e n).bind fun a n₁ h₁ => ?_
    exact (expressions_kept later n₁).bind fun as n₂ h₂ => Yields.pure (h₁.append h₂)

theorem fields_kept (fs : List Field) (n : Nat) :
    Yields n (fields fs) fun fs' n' => Kept n n' [] (Bodies.fields fs) [] (Bodies.fields fs') := by
  cases fs with
  | nil => exact .nothing (Nat.le_refl n)
  | cons f later =>
    cases f with
    | positional position value =>
      rw [fields]
      refine (expression_kept value n).bind fun a n₁ h₁ => ?_
      exact (fields_kept later n₁).bind fun as n₂ h₂ => Yields.pure (h₁.append h₂)
    | keyed key value =>
      rw [fields]
      refine (expression_kept key n).bind fun a n₁ h₁ => ?_
      refine (expression_kept value n₁).bind fun b n₂ h₂ => ?_
      refine (fields_kept later n₂).bind fun as n₃ h₃ => ?_
      exact Yields.pure ((h₁.append h₂).append h₃)

theorem branches_kept (stop : Label) (es : List Branch) (n : Nat) :
    Yields n (branches stop es) fun b n' =>
      Kept n n' ((Spine.branches es).flatMap Statement.marks) (Bodies.branches es) b.labels
          (Bodies.block b) ∧
        ∀ v v', Scoped.branches v es → v ⊆ v' → stop ∈ v' → b.heads ⊆ v' → Landed v' b := by
  cases es with
  | nil => exact ⟨.nothing (Nat.le_refl n), fun _ _ _ _ _ _ => landed_nil⟩
  | cons e later =>
    obtain ⟨c, body⟩ := e
    rw [branches]
    refine (freshLabel_yields n).bind ?_
    rintro _ _ ⟨rfl, rfl⟩
    refine (expression_kept c _).bind fun c' n₁ h₁ => ?_
    refine (block_kept body n₁).bind fun body' n₂ h₂ => ?_
    refine (branches_kept stop later n₂).bind fun later' n₃ h₃ => ?_
    refine Yields.pure ⟨?_, fun v v' hscoped hv hstop hheads => ?_⟩
    · have h := (((Kept.made n).append h₁).append h₂.1).append h₃.1
      have hp : (Block.labels body' ++ .made (n + 1) :: Block.labels later').Perm
          ([.made (n + 1)] ++ [] ++ Block.labels body' ++ Block.labels later') :=
        List.perm_iff_count.2 fun l => by
          simp only [List.count_append, List.count_cons, List.count_nil]
          omega
      simpa [Block.marks, Statement.labels] using h.perm hp
    · simp only [Block.heads_append, Block.heads_cons, Statement.labels,
        List.nil_append, List.cons_append, List.append_subset,
        List.cons_subset] at hheads
      obtain ⟨hbody, hnext, hlater⟩ := hheads
      simpa [Jump.Lands, hstop, hnext] using
        ⟨h₂.2.block hscoped.1 hv hbody, h₃.2 v v' hscoped.2 hv hstop hlater⟩

theorem statement_kept (s : Statement) (n : Nat) :
    Yields n (statement s) fun b n' =>
      Kept n n' (Block.marks [s]) (Bodies.statement s) b.labels (Bodies.block b) ∧
        Spliced s.labels (Scoped.statement · s) b := by
  cases s with
  | expression e =>
    rw [statement]
    refine (expression_kept e n).bind fun e' n₁ h₁ => Yields.pure ⟨?_, ?_⟩
    · simpa [Statement.labels, Statement.marks] using h₁
    · exact .plain rfl fun _ _ _ _ => by simp
  | assign targets values =>
    rw [statement]
    refine (expressions_kept targets n).bind fun targets' n₁ h₁ => ?_
    refine (expressions_kept values n₁).bind fun values' n₂ h₂ => Yields.pure ⟨?_, ?_⟩
    · simpa [Statement.labels, Statement.marks] using h₁.append h₂
    · exact .plain rfl fun _ _ _ _ => by simp
  | declare symbols values =>
    rw [statement]
    refine (expressions_kept values n).bind fun values' n₁ h₁ => Yields.pure ⟨?_, ?_⟩
    · simpa [Statement.labels, Statement.marks] using h₁
    · exact .plain rfl fun _ _ _ _ => by simp
  | result values =>
    rw [statement]
    refine (expressions_kept values n).bind fun values' n₁ h₁ => Yields.pure ⟨?_, ?_⟩
    · simpa [Statement.labels, Statement.marks] using h₁
    · exact .plain rfl fun _ _ _ _ => by simp
  | goto l =>
    exact ⟨.nothing (Nat.le_refl n), .plain rfl fun _ _ hl hv => by simpa [Jump.Lands] using hv hl⟩
  | gotoIf l c wanted =>
    rw [statement]
    refine (expression_kept c n).bind fun c' n₁ h₁ => Yields.pure ⟨?_, ?_⟩
    · simpa [Statement.labels, Statement.marks] using h₁
    · exact .plain rfl fun _ _ hl hv => by simpa [Jump.Lands] using hv hl
  | label l =>
    exact ⟨.label n l, .plain rfl fun _ _ _ _ => by simp⟩
  | doBlock b =>
    rw [statement]
    refine (block_kept b n).bind fun b' n₁ h₁ => Yields.pure ⟨?_, ?_⟩
    · simpa [Statement.labels, Statement.marks, Block.marks, Block.labels] using h₁.1
    · refine .plain rfl fun v v' hscoped hv => ?_
      exact h₁.2.block hscoped (List.subset_append_of_subset_right _ hv)
        (List.subset_append_left ..)
  | ifThen c body elseIfs otherwise =>
    rw [statement]
    refine (freshLabel_yields n).bind ?_
    rintro _ _ ⟨rfl, rfl⟩
    refine (freshLabel_yields _).bind ?_
    rintro _ _ ⟨rfl, rfl⟩
    refine (expression_kept c _).bind fun c' n₁ h₁ => ?_
    refine (block_kept body n₁).bind fun body' n₂ h₂ => ?_
    refine (branches_kept _ elseIfs n₂).bind fun later n₃ h₃ => ?_
    have hlast (last : Block) (n₄ : Nat)
        (h₄ : Kept n₃ n₄ ((Spine.otherwise otherwise).flatMap Statement.marks)
          (Bodies.otherwise otherwise) last.labels (Bodies.block last))
        (hlands : ∀ v v', Scoped.otherwise v otherwise → v ⊆ v' → last.heads ⊆ v' →
          Landed v' last) :
        Yields n₄ (pure (.gotoIf (.made (n + 1 + 1)) c' false :: body' ++
            .goto (.made (n + 1)) :: .label (.made (n + 1 + 1)) :: later ++ last ++
              [.label (.made (n + 1))])) fun b n' =>
          Kept n n' (Block.marks [.ifThen c body elseIfs otherwise])
              (Bodies.statement (.ifThen c body elseIfs otherwise)) (Block.labels b)
              (Bodies.block b) ∧
            Spliced [] (Scoped.statement · (.ifThen c body elseIfs otherwise)) b := by
      refine Yields.pure ⟨?_, List.nil_subset _, ?_⟩
      · have h := ((((Kept.made n).append (.made (n + 1))).append h₁).append h₂.1).append h₃.1
        have hp : (Block.labels body' ++ Label.made (n + 1 + 1) :: Block.labels later ++
              last.labels ++ [Label.made (n + 1)]).Perm
            ([Label.made (n + 1)] ++ [Label.made (n + 1 + 1)] ++ [] ++ Block.labels body' ++
              Block.labels later ++ last.labels) :=
          List.perm_iff_count.2 fun l => by
            simp only [List.count_append, List.count_cons, List.count_nil]
            omega
        simpa [Block.marks, Statement.labels, Statement.marks] using (h.append h₄).perm hp
      · intro v v' hscoped hv hheads
        simp only [Block.heads_append, Block.heads_cons, Block.heads_nil, Statement.labels,
          List.nil_append, List.cons_append, List.append_assoc, List.append_subset,
          List.cons_subset] at hheads
        obtain ⟨hbody, hnext, hlater, hlast, hstop, -⟩ := hheads
        simpa [Jump.Lands, hstop, hnext, and_assoc] using
          ⟨h₂.2.block hscoped.1 hv hbody, h₃.2 v v' hscoped.2.1 hv hstop hlater,
            hlands v v' hscoped.2.2 hv hlast⟩
    cases otherwise with
    | none => exact hlast [] n₃ (.nothing (Nat.le_refl n₃)) fun _ _ _ _ _ => landed_nil
    | some o =>
      refine (block_kept o n₃).bind fun last n₄ h₄ => ?_
      exact hlast last n₄ h₄.1 fun v v' => h₄.2.block
  | whileDo c body exit =>
    rw [statement]
    refine (freshLabel_yields n).bind ?_
    rintro _ _ ⟨rfl, rfl⟩
    refine (expression_kept c _).bind fun c' n₁ h₁ => ?_
    refine (block_kept body n₁).bind fun body' n₂ h₂ => Yields.pure ⟨?_, ?_, ?_⟩
    · have h := (((Kept.made n).append h₁).append (.label n₁ exit)).append h₂.1
      have hp : (Label.made (n + 1) :: Block.labels body' ++ [exit]).Perm
          ([.made (n + 1)] ++ [] ++ [exit] ++ Block.labels body') :=
        List.perm_iff_count.2 fun l => by
          simp only [List.count_append, List.count_cons, List.count_nil]
          omega
      simpa [Block.marks, Statement.labels, Statement.marks] using h.perm hp
    · exact List.nil_subset _
    · intro v v' hscoped hv hheads
      simp only [Block.heads_append, Block.heads_cons, Block.heads_nil, Statement.labels,
        List.nil_append, List.cons_append, List.append_nil, List.append_subset,
        List.cons_subset] at hheads
      obtain ⟨hcheck, hbody, hexit, -⟩ := hheads
      simpa [Jump.Lands, hcheck, hexit] using
        h₂.2.block hscoped (List.cons_subset.2 ⟨hexit, hv⟩) hbody
  | repeatUntil body c exit =>
    rw [statement]
    refine (freshLabel_yields n).bind ?_
    rintro _ _ ⟨rfl, rfl⟩
    refine (block_kept body _).bind fun body' n₁ h₁ => ?_
    refine (expression_kept c n₁).bind fun c' n₂ h₂ => Yields.pure ⟨?_, ?_, ?_⟩
    · have h := (((Kept.made n).append (.label _ exit)).append h₁.1).append h₂
      have hp : (Label.made (n + 1) :: Block.labels body' ++ [exit]).Perm
          ([.made (n + 1)] ++ [exit] ++ Block.labels body' ++ []) :=
        List.perm_iff_count.2 fun l => by
          simp only [List.count_append, List.count_cons, List.count_nil]
          omega
      simpa [Block.marks, Statement.labels, Statement.marks] using h.perm hp
    · exact List.nil_subset _
    · intro v v' hscoped hv hheads
      simp only [Block.heads_append, Block.heads_cons, Block.heads_nil, Statement.labels,
        List.nil_append, List.cons_append, List.append_nil, List.append_subset,
        List.cons_subset] at hheads
      obtain ⟨hstart, hbody, hexit, -⟩ := hheads
      simpa [Jump.Lands, hstart, hexit] using
        h₁.2.block hscoped (List.cons_subset.2 ⟨hexit, hv⟩) hbody
  | numericFor counter initial limit step body exit =>
    rw [statement]
    refine (freshLabel_yields n).bind ?_
    rintro _ _ ⟨rfl, rfl⟩
    refine (freshLocal_yields "limit" _).bind ?_
    rintro limitSymbol _ rfl
    refine (freshLocal_yields "step" _).bind ?_
    rintro stepSymbol _ rfl
    refine (expression_kept initial _).bind fun initial' n₁ h₁ => ?_
    refine (expression_kept limit n₁).bind fun limit' n₂ h₂ => ?_
    refine (expression_kept step n₂).bind fun step' n₃ h₃ => ?_
    refine (block_kept body n₃).bind fun body' n₄ h₄ => Yields.pure ⟨?_, ?_, ?_⟩
    · have h := (((((((Kept.made n).append (.nothing (by omega))).append h₁).append h₂).append
        h₃).append (.label n₃ exit)).append h₄.1)
      have hp : (Label.made (n + 1) :: Block.labels body' ++ [exit]).Perm
          ([.made (n + 1)] ++ [] ++ [] ++ [] ++ [] ++ [exit] ++ Block.labels body') :=
        List.perm_iff_count.2 fun l => by
          simp only [List.count_append, List.count_cons, List.count_nil]
          omega
      simpa [Block.marks, Statement.labels, Statement.marks, withinLimit, Expression.integer] using
        h.perm hp
    · exact List.nil_subset _
    · intro v v' hscoped hv hheads
      simp only [Block.heads_append, Block.heads_cons, Block.heads_nil, Statement.labels,
        List.nil_append, List.cons_append, List.append_nil, List.append_subset,
        List.cons_subset] at hheads
      obtain ⟨hstart, hbody, hexit, -⟩ := hheads
      simpa [Jump.Lands, hstart, hexit] using
        h₄.2.block hscoped (List.cons_subset.2 ⟨hexit, hv⟩) hbody
  | genericFor symbols values body exit =>
    rw [statement]
    refine (freshLabel_yields n).bind ?_
    rintro _ _ ⟨rfl, rfl⟩
    refine (freshLocal_yields "iterator" _).bind ?_
    rintro iterator _ rfl
    refine (freshLocal_yields "state" _).bind ?_
    rintro state _ rfl
    refine (freshLocal_yields "control" _).bind ?_
    rintro control _ rfl
    refine (expressions_kept values _).bind fun values' n₁ h₁ => ?_
    refine (block_kept body n₁).bind fun body' n₂ h₂ => Yields.pure ⟨?_, ?_, ?_⟩
    · have h := ((((Kept.made n).append (.nothing (by omega))).append h₁).append
        (.label n₁ exit)).append h₂.1
      have hp : (Label.made (n + 1) :: Block.labels body' ++ [exit]).Perm
          ([.made (n + 1)] ++ [] ++ [] ++ [exit] ++ Block.labels body') :=
        List.perm_iff_count.2 fun l => by
          simp only [List.count_append, List.count_cons, List.count_nil]
          omega
      simpa [Block.marks, Statement.labels, Statement.marks, labels_nextValues,
        bodies_nextValues] using h.perm hp
    · exact List.nil_subset _
    · intro v v' hscoped hv hheads
      simp only [Block.heads_append, Block.heads_cons, Block.heads_nil, heads_nextValues,
        Statement.labels, List.nil_append, List.cons_append, List.append_nil, List.append_subset,
        List.cons_subset] at hheads
      obtain ⟨hstart, hbody, hexit, -⟩ := hheads
      simpa [Jump.Lands, hstart, hexit, landed_nextValues] using
        h₂.2.block hscoped (List.cons_subset.2 ⟨hexit, hv⟩) hbody

theorem block_kept (b : List Statement) (n : Nat) :
    Yields n (block b) fun b' n' =>
      Kept n n' (Block.marks b) (Bodies.block b) (Block.labels b') (Bodies.block b') ∧
        Spliced (Block.heads b) (Scoped.list · b) b' := by
  cases b with
  | nil => exact ⟨.nothing (Nat.le_refl n), List.Subset.refl _, fun _ _ _ _ _ => landed_nil⟩
  | cons s later =>
    rw [block]
    refine (statement_kept s n).bind fun a n₁ h₁ => ?_
    refine (block_kept later n₁).bind fun b n₂ h₂ => Yields.pure ⟨?_, ?_⟩
    · simpa [Block.marks_cons, Bodies.block] using h₁.1.append h₂.1
    · rw [Block.heads_cons]
      exact h₁.2.append h₂.2

end

/-- The labels of a whole program. -/
theorem bodies_kept (b : Block) (n : Nat) :
    Yields n (block b) fun b' n' => Kept n n' [] b.bodies [] (Block.bodies b') :=
  (block_kept b n).imp fun _ _ h =>
    h.1.function fun hscoped => h.2.block hscoped (List.nil_subset _) (List.Subset.refl _)

end Flatten

/-! ## Names of labels -/

theorem Label.made_name_injective {j k : Nat} (h : (made j).name = (made k).name) : j = k := by
  have hdigits : Nat.toDigits 10 j = Nat.toDigits 10 k := by
    simpa [made, ToString.toString, Nat.repr_eq_ofList_toDigits, String.ofList_inj] using h
  rw [← Nat.ofDigitChars_toDigits (b := 10) (n := j) (by decide) (by decide), hdigits,
    Nat.ofDigitChars_toDigits (by decide) (by decide)]

/-- No name of a label that is made up is a word or the name of a loop's end. -/
theorem Label.Bound.name_ne {unit : Nat} {l : Label} (h : l.Bound unit) (k : Nat) :
    l.name ≠ (made k).name := by
  cases h with
  | written hword =>
    intro hname
    have hsharp : '#' ∈ (made k).name.toList := by simp [made, ToString.toString]
    rw [← hname] at hsharp
    exact absurd (hword '#' hsharp) (by decide)
  | exit j n =>
    intro hname
    have hhead := congrArg (fun name : String => name.toList.head?) hname
    simp [made, ToString.toString] at hhead

/-! ## Whole programs -/

namespace Spent

variable {unit lo hi : Nat} {inner : List Block}

theorem occurrences_le_one (h : Spent unit 0 lo hi [] inner) (id : SymbolId) :
    occurrences id (inner.flatMap Block.marks) ≤ 1 := by
  cases hcount : occurrences id (inner.flatMap Block.marks) with
  | zero => exact Nat.zero_le _
  | succ m =>
    have hpos : 0 < occurrences id (inner.flatMap Block.marks) := by omega
    obtain ⟨l, hl, hid⟩ := List.countP_pos_iff.1 hpos
    obtain ⟨k, hk⟩ := (h.bound l hl).id_eq
    have hle := h.count k
    have hone := between_le_one lo hi k
    rw [← hk, of_decide_eq_true hid] at hle
    rw [← hcount]
    exact Nat.le_trans hle (by simpa using hone)

theorem occurrences_generated (h : Spent unit 0 lo hi [] inner) (k : Nat) :
    occurrences (.generated k) (inner.flatMap Block.marks) = 0 := by
  refine List.countP_eq_zero.2 fun l hl hid => ?_
  obtain ⟨j, hj⟩ := (h.bound l hl).id_eq
  rw [hj] at hid
  simp at hid

end Spent

/-- A symbol is that of at most one label of a flat program. -/
theorem Kept.occurrences_le_one {unit lo hi n n' : Nat} {inner inner' : List Block}
    (h : Kept n n' [] inner [] inner') (hspent : Spent unit 0 lo hi [] inner) (id : SymbolId) :
    occurrences id (inner'.flatMap Block.labels) ≤ 1 := by
  have hcount : occurrences id (inner'.flatMap Block.labels) ≤
      occurrences id (inner.flatMap Block.marks) + madeBetween n n' id := h.count id
  cases id with
  | declared u k => exact Nat.le_trans hcount (hspent.occurrences_le_one _)
  | generated k =>
    rw [hspent.occurrences_generated] at hcount
    exact Nat.le_trans hcount (by simpa [madeBetween] using between_le_one _ _ k)

/-- Whether a label was made up by flattening. -/
def Label.isMade (l : Label) : Bool :=
  match l.id with
  | .declared .. => false
  | .generated _ => true

namespace Program

/-- For every text, well formed or not: each jump of a flat program has its target in its own list
of statements or in that of a `do` block around it, and nowhere else; labels of the whole program
are different symbols; and the labels that were made up have names of their own. -/
theorem flatten_jumps (source : Text.Source) (unit : Nat) :
    let p := ofTree (Syntax.Tree.parse source) unit
    let labels := (Block.bodies p.flatten.body).flatMap Block.labels
    (∀ f ∈ Block.bodies p.flatten.body, ∀ j ∈ f.jumps,
        j.target ∈ j.visible ∧ occurrences j.target.id f.labels = 1) ∧
      (labels.map Label.id).Nodup ∧
      ((labels.filter Label.isMade).map Label.name).Nodup ∧
      ∀ l ∈ labels, l.isMade → (∃ k, l = .made k) ∧
        ∀ m ∈ (Block.bodies p.body).flatMap Block.marks, l.name ≠ m.name := by
  intro p labels
  have hbody : p.body = Lexical.program unit (Syntax.Tree.parse source).root.block :=
    Resolve.program_eq (Syntax.Tree.parse_reads source).2 unit
  obtain ⟨hi, hspent⟩ := Lexical.program_placed (Syntax.Tree.parse_reads source).2 unit
  rw [← hbody] at hspent
  have hkept : Kept 0 _ [] (Block.bodies p.body) [] (Block.bodies p.flatten.body) :=
    Flatten.bodies_kept p.body 0
  have hmade (l : Label) (hl : l ∈ labels) (hid : l.isMade) : ∃ k, l = .made k := by
    refine (hkept.origin l hl).resolve_left fun hmark => ?_
    obtain ⟨k, hk⟩ := (hspent.bound l hmark).id_eq
    simp [Label.isMade, hk] at hid
  have hnodup : (labels.map Label.id).Nodup := by
    refine List.nodup_iff_count_le_one.2 fun id => ?_
    rw [List.count_eq_countP, List.countP_map]
    exact hkept.occurrences_le_one hspent id
  refine ⟨fun f hf j hj => ?_, hnodup, ?_, fun l hl hid => ⟨hmade l hl hid, fun m hm => ?_⟩⟩
  · have hlands := hkept.lands hspent.inScope f hf j hj
    refine ⟨hlands, Nat.le_antisymm ?_ ?_⟩
    · have hsub : f.labels.Sublist labels :=
        List.sublist_flatten_of_mem (List.mem_map_of_mem hf)
      exact Nat.le_trans hsub.countP_le (hkept.occurrences_le_one hspent _)
    · exact List.countP_pos_iff.2 ⟨_, Block.target_mem_labels hj hlands, by simp⟩
  · refine (hnodup.of_map.filter _).map_on fun l hl m hm hname => ?_
    rw [List.mem_filter] at hl hm
    obtain ⟨j, rfl⟩ := hmade l hl.1 hl.2
    obtain ⟨k, rfl⟩ := hmade m hm.1 hm.2
    rw [Label.made_name_injective hname]
  · obtain ⟨k, rfl⟩ := hmade l hl hid
    exact ((hspent.bound m hm).name_ne k).symm

end Program
end Resolved
end LuaFront
