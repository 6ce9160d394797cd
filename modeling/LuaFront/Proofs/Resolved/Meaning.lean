import LuaFront.Proofs.Resolved.Hidden
import LuaFront.Proofs.Resolved.Simulation
import Mathlib.Algebra.Group.Action.Basic
import Mathlib.Data.Nat.Pairing

/-!
# LuaFront.Proofs.Resolved.Meaning

Flattening a program keeps its meaning.

* `Block.IsFlat`: no statement of a list is structured, however deep in blocks. Such a list has no
  loops, so no run of it depends on how their variables are called.
* `Program.canRun_flatten`: a resolved program and its flat form can run in the same ways, but for
  the names of symbols that are made up.
-/

namespace LuaFront
namespace Resolved

open Flatten (out count)

/-! ## Flat lists -/

/-- A statement is not structured, and no statement in it is. -/
def Statement.IsFlat (x : Statement) : Prop := ∀ y ∈ Spine.statement x, y.isStructured = false

/-- No statement of a function body is structured. -/
def Block.IsFlat (b : List Statement) : Prop := ∀ y ∈ Spine.block b, y.isStructured = false

namespace Block

@[simp]
theorem isFlat_nil : IsFlat [] := by simp [IsFlat]

@[simp]
theorem isFlat_cons {x : Statement} {b : List Statement} :
    IsFlat (x :: b) ↔ x.IsFlat ∧ IsFlat b :=
  List.forall_mem_append

@[simp]
theorem isFlat_append {a b : List Statement} : IsFlat (a ++ b) ↔ IsFlat a ∧ IsFlat b := by
  simp only [IsFlat, Spine.block_append]
  exact List.forall_mem_append

theorem IsFlat.behind {b : List Statement} {l : Label} (h : IsFlat b) (hl : l ∈ heads b) :
    IsFlat (after l b) := by
  obtain ⟨a, ha⟩ := exists_eq_append_after hl
  rw [ha, isFlat_append, isFlat_cons] at h
  exact h.2.2

end Block

namespace Statement

theorem isFlat_doBlock {b : List Statement} : (doBlock b).IsFlat ↔ Block.IsFlat b := by
  simp [IsFlat, Block.IsFlat, isStructured]

theorem IsFlat.loop? {x : Statement} (h : x.IsFlat) (hidden : Hidden) : x.loop? hidden = none := by
  cases x with
  | whileDo | repeatUntil | numericFor | genericFor => simp [IsFlat, isStructured] at h
  | _ => rfl

end Statement

namespace Flatten

open Block

theorem branch_isFlat {stop next : Label} {c : Expression} {b later : List Statement}
    (hb : IsFlat b) (hlater : IsFlat later) :
    IsFlat (.gotoIf next c false :: (b ++ .goto stop :: .label next :: later)) := by
  simp [Statement.IsFlat, Statement.isStructured, hb, hlater]

mutual

theorem statement_isFlat (x : Statement) (n : Nat) : IsFlat (out (statement x) n) := by
  cases x with
  | ifThen c b es o =>
    have hb := block_isFlat b (count (expression c) (n + 2))
    have hes := branches_isFlat (.made (n + 1)) es (count (block b) (count (expression c) (n + 2)))
    rw [out_ifThen, isFlat_append, isFlat_append]
    refine ⟨?_, otherwise_isFlat o _, by simp [Statement.IsFlat, Statement.isStructured]⟩
    simpa [branches] using branch_isFlat hb hes
  | whileDo c b exit =>
    have hb := block_isFlat b (count (expression c) (n + 1))
    simp [statement, Statement.IsFlat, Statement.isStructured, hb]
  | repeatUntil b c exit =>
    have hb := block_isFlat b (n + 1)
    simp [statement, Statement.IsFlat, Statement.isStructured, hb]
  | numericFor counter initial limit step b exit =>
    have hb := block_isFlat b (count (expressions [initial, limit, step]) (n + 3))
    simp [expressions] at hb
    simp [statement, Statement.IsFlat, Statement.isStructured, hb]
  | genericFor symbols values b exit =>
    have hb := block_isFlat b (count (expressions values) (n + 4))
    have hnext (l₁ l₂ l₃ : Local) : IsFlat (nextValues symbols l₁ l₂ l₃ exit) := by
      cases symbols <;> simp [nextValues, Statement.IsFlat, Statement.isStructured]
    simp [statement, Statement.IsFlat, Statement.isStructured, hb, hnext]
  | doBlock b =>
    have hb := block_isFlat b n
    simpa [statement, Statement.isFlat_doBlock] using hb
  | expression | assign | declare | result | goto | gotoIf | label =>
    simp [statement, Statement.IsFlat, Statement.isStructured]

theorem branches_isFlat (stop : Label) (es : List Branch) (n : Nat) :
    IsFlat (out (branches stop es) n) := by
  cases es with
  | nil => simp [branches]
  | cons e later =>
    obtain ⟨c, b⟩ := e
    have hb := block_isFlat b (count (expression c) (n + 1))
    have hlater := branches_isFlat stop later (count (block b) (count (expression c) (n + 1)))
    simpa [branches] using branch_isFlat hb hlater

theorem otherwise_isFlat (o : Option (List Statement)) (n : Nat) :
    IsFlat (out (otherwise o) n) := by
  cases o with
  | none => simp [otherwise]
  | some b => exact block_isFlat b n

theorem block_isFlat (b : List Statement) (n : Nat) : IsFlat (out (block b) n) := by
  cases b with
  | nil => simp [block]
  | cons x later =>
    rw [out_block_cons, isFlat_append]
    exact ⟨statement_isFlat x n, block_isFlat later _⟩

end
end Flatten

/-! ## Runs of flat lists -/

section

variable {S : Type} {act : Evaluator S} {hidden : Hidden}

/-- There is no structured statement in what is left to run. -/
def Task.IsFlat : Task → Prop
  | .statement x => x.IsFlat
  | .list b rest | .resume b rest _ => Block.IsFlat b ∧ Block.IsFlat rest
  | .choose .. | .turns _ => False

theorem Run.of_isFlat {n : Nat} {task : Task} {s t : S} {κ : List Seen} {o : Outcome}
    (h : Run act hidden n task s κ o t) (hflat : task.IsFlat) (hidden' : Hidden) :
    Run act hidden' n task s κ o t := by
  induction h with
  | simple hx ha => exact .simple hx ha
  | result ha => exact .result ha
  | goto => exact .goto
  | gotoIf ha => exact .gotoIf ha
  | stay ha => exact .stay ha
  | label => exact .label
  | doBlock _ ih =>
    have hb := Statement.isFlat_doBlock.1 hflat
    exact .doBlock (ih ⟨hb, hb⟩)
  | loop hx =>
    rw [Statement.IsFlat.loop? hflat] at hx
    cases hx
  | nil => exact .nil
  | cons _ _ ih₁ ih₂ =>
    have hrest := Block.isFlat_cons.1 hflat.2
    exact .cons (ih₁ hrest.1) (ih₂ ⟨hflat.1, hrest.2⟩)
  | next _ ih => exact .next (ih hflat)
  | caught hl _ ih => exact .caught hl (ih ⟨hflat.1, hflat.1.behind hl⟩)
  | passed hl => exact .passed hl
  | returned => exact .returned
  | ifThen => simp [Task.IsFlat, Statement.IsFlat, Statement.isStructured] at hflat
  | none | otherwise | chosen | skipped | stop | leave | last | again => exact hflat.elim

/-- It does not matter how the variables of loops are called where there is none. -/
theorem Block.IsFlat.canRun_iff {b : Block} (h : IsFlat b) (hidden hidden' : Hidden) {s t : S}
    {κ : List Seen} {o : Outcome} : b.CanRun act hidden s κ o t ↔ b.CanRun act hidden' s κ o t := by
  constructor
  · rintro ⟨n, hrun⟩
    exact ⟨n, hrun.of_isFlat ⟨h, h⟩ hidden'⟩
  · rintro ⟨n, hrun⟩
    exact ⟨n, hrun.of_isFlat ⟨h, h⟩ hidden⟩

end

/-! ## Programs -/

/-- Variables of loops that no program can name, and different ones for different loops. -/
structure Hidden.Private (hidden : Hidden) : Prop where
  made : ∀ exit role, ¬ (hidden exit role).isDeclared
  apart : Function.Injective2 hidden

/-- The variables of loops can be exchanged for those that flattening makes up. -/
theorem Hidden.Private.exists_fits {hidden : Hidden} (h : hidden.Private) {b : Block}
    (hnodup : b.marks.Nodup) :
    ∃ π : Equiv.Perm Local, KeepsDeclared π ∧
      Fits (fun exit role => π (hidden exit role)) (Privates.block 0 b) := by
  have hapart := Privates.block_apart b 0
  have hsymbols : (((Privates.block 0 b).map fun p => (hidden p.1 p.2.1, p.2.2)).map
      Prod.snd).Nodup := by
    simpa [Function.comp_def] using hapart.symbols
  have hkeys : (((Privates.block 0 b).map fun p => (hidden p.1 p.2.1, p.2.2)).map
      Prod.fst).Nodup := by
    have hmap := (hapart.keys hnodup).map h.apart.uncurry
    simpa [Function.comp_def, Function.uncurry] using hmap
  obtain ⟨π, hπ, hmoves⟩ := exists_renaming hkeys hsymbols fun p hp => by
    obtain ⟨q, hq, rfl⟩ := List.mem_map.1 hp
    obtain ⟨k, hk, -⟩ := hapart.made q hq
    exact ⟨h.made q.1 q.2.1, by simp [Local.isDeclared, hk]⟩
  exact ⟨π, hπ, fun p hp => hmoves _ (List.mem_map_of_mem hp)⟩

/-- A program and its flat form can run in the same ways: from the same stores to the same outcomes
and stores, with the same conditions and simple statements in the same order, where symbols that are
made up may be called otherwise. -/
theorem Program.canRun_flatten (source : Text.Source) (unit : Nat) {S : Type}
    [MulAction (Equiv.Perm Local) S] {act : Evaluator S} (hact : act.Blind) {hidden : Hidden}
    (hprivate : hidden.Private) :
    let b := (ofTree (Syntax.Tree.parse source) unit).body
    ∃ π : Equiv.Perm Local, KeepsDeclared π ∧ ∀ (hidden' : Hidden) (s t : S) κ o,
      b.CanRun act hidden s κ o t ↔ b.flatten.CanRun act hidden' (π • s) κ o (π • t) := by
  intro b
  have hbody : b = Lexical.program unit (Syntax.Tree.parse source).root.block :=
    Resolve.program_eq (Syntax.Tree.parse_reads source).2 unit
  obtain ⟨hi, hspent⟩ := Lexical.program_placed (Syntax.Tree.parse_reads source).2 unit
  rw [← hbody] at hspent
  have hscoped : Scoped.block [] b := hspent.inScope b (by simp [Block.bodies])
  have hfine : Fine [] (marksOf b.marks (Bodies.block b)) :=
    ⟨fun id => by simpa [Block.bodies, marksOf] using hspent.occurrences_le_one id,
      fun k => by simpa [Block.bodies, marksOf] using hspent.occurrences_generated k⟩
  have hnodup : b.marks.Nodup := by
    refine List.Nodup.of_map Label.id (List.nodup_iff_count_le_one.2 fun id => ?_)
    have hone := hfine.once id
    rw [List.count_eq_countP, List.countP_map]
    simp only [occurrences_nil, marksOf, occurrences_append] at hone
    exact Nat.le_trans (Nat.le_add_right _ _) (Nat.le_of_add_left_le hone)
  obtain ⟨π, hπ, hfits⟩ := hprivate.exists_fits hnodup
  refine ⟨π, hπ, fun hidden' s t κ o => ?_⟩
  have hfixed (ρ : Local → Local) (hρ : KeepsDeclared ρ) : Rename.block ρ b = b := by
    rw [hbody]
    exact Lexical.program_fixed hρ unit _
  have hsound : Block.Sound act (fun exit role => π (hidden exit role)) b :=
    Block.sound_of_statements (list_sound hact b _ hscoped fun x hx => hfine.statement hx)
  calc b.CanRun act hidden s κ o t
    _ ↔ b.CanRun act (fun exit role => π (hidden exit role)) (π • s) κ o (π • t) :=
      Block.canRun_rename hact hπ hfixed
    _ ↔ b.flatten.CanRun act (fun exit role => π (hidden exit role)) (π • s) κ o (π • t) :=
      (hsound.runs_iff hfits hscoped hfine).symm
    _ ↔ b.flatten.CanRun act hidden' (π • s) κ o (π • t) :=
      (Flatten.block_isFlat b 0).canRun_iff _ _

/-! ## An evaluator -/

def Expression.symbol? : Expression → Option Local
  | .name l => some l
  | _ => none

/-- The variables that a simple statement may change. -/
def Statement.written : Statement → List Local
  | .declare symbols _ => symbols
  | .assign targets _ => targets.filterMap Expression.symbol?
  | _ => []

/-- Values of variables. -/
structure Store where
  value : Local → Syntax.Literal

namespace Store

instance : MulAction (Equiv.Perm Local) Store where
  smul π s := ⟨fun l => s.value (π⁻¹ l)⟩
  one_smul _ := rfl
  mul_smul _ _ _ := rfl

theorem value_smul (π : Equiv.Perm Local) (s : Store) (l : Local) :
    (π • s).value l = s.value (π⁻¹ l) := rfl

/-- The value of an expression that needs no computation. -/
def eval? (s : Store) : Expression → Option Syntax.Literal
  | .literal v => some v
  | .name l => some (s.value l)
  | _ => none

/-- Conditions that need no computation are decided by their values, and others are open. A
statement changes the variables that it declares or assigns to, and no others. -/
def act : Evaluator Store
  | .test c truth, s, t => t = s ∧ ∀ v, s.eval? c = some v → (truth ↔ v ≠ .nil ∧ v ≠ .«false»)
  | .perform x, s, t => ∀ l, l ∉ x.written → t.value l = s.value l

theorem eval?_flatten (s : Store) (e : Expression) (n : Nat) :
    s.eval? (out (Flatten.expression e) n) = s.eval? e := by
  cases e <;> simp [Flatten.expression, eval?]

theorem written_flatten {x : Statement} (hx : (Action.perform x).isAtomic) (n : Nat) :
    ((out (Flatten.statement x) n).headD x).written = x.written := by
  have hsymbol (e : Expression) (n : Nat) : (out (Flatten.expression e) n).symbol? = e.symbol? := by
    cases e <;> simp [Flatten.expression, Expression.symbol?]
  have htargets (es : List Expression) (n : Nat) :
      (out (Flatten.expressions es) n).filterMap Expression.symbol? =
        es.filterMap Expression.symbol? := by
    induction es generalizing n with
    | nil => simp [Flatten.expressions]
    | cons e later ih => simp [Flatten.expressions, List.filterMap_cons, hsymbol, ih]
  cases x with
  | expression | declare | result => simp [Flatten.statement, Statement.written]
  | assign targets values => simp [Flatten.statement, Statement.written, htargets]
  | _ => cases hx

theorem eval?_rename (π : Equiv.Perm Local) (s : Store) (e : Expression) :
    (π • s).eval? (Rename.expression π e) = s.eval? e := by
  cases e <;> simp [eval?, value_smul]

theorem written_rename (π : Equiv.Perm Local) (x : Statement) :
    (Rename.statement π x).written = x.written.map π := by
  have htargets (es : List Expression) :
      (Rename.expressions π es).filterMap Expression.symbol? =
        (es.filterMap Expression.symbol?).map π := by
    induction es with
    | nil => rfl
    | cons e later ih => cases e <;> simp [Expression.symbol?, List.filterMap_cons, ih]
  cases x with
  | assign targets values => simpa [Statement.written] using htargets targets
  | _ => simp [Statement.written]

theorem act_blind : act.Blind where
  lowered a ha n s t := by
    cases a with
    | test c truth =>
      have heval := eval?_flatten s c n
      simp only [out] at heval
      simp only [Action.lowered, act, heval]
    | perform x =>
      rw [Action.lowered_perform]
      simp only [act, written_flatten ha n]
  renamed π _ a s t := by
    cases a with
    | test c truth => simp only [Action.rename, act, eval?_rename, smul_left_cancel_iff]
    | perform x =>
      simp only [Action.rename, act, written_rename, value_smul]
      constructor
      · intro h l hl
        simpa using h (π l) (by simpa using hl)
      · intro h l hl
        refine h (π⁻¹ l) fun hmem => hl ?_
        simpa using List.mem_map_of_mem (f := π) hmem

end Store

/-- Variables that are numbered by the loop and by what they are for. -/
def Hidden.numbered : Hidden := fun exit role =>
  let loop : Nat := match exit.id with
    | .declared unit k => 2 * Nat.pair unit k
    | .generated k => 2 * k + 1
  let number : Nat := match role with
    | .limit => 0
    | .step => 1
    | .iterator => 2
    | .state => 3
    | .control => 4
  Local.plain (.generated (Nat.pair loop number)) exit.name

theorem Hidden.numbered_private : numbered.Private where
  made _ _ := by simp [numbered, Local.plain, Local.isDeclared]
  apart := by
    rintro ⟨id, name⟩ ⟨id', name'⟩ role role' h
    simp only [numbered, Local.plain, Local.mk.injEq, SymbolId.generated.injEq, Nat.pair_eq_pair,
      and_true] at h
    obtain ⟨⟨hloop, hrole⟩, rfl⟩ := h
    refine ⟨?_, by cases role <;> cases role' <;> simp at hrole ⊢⟩
    cases id with
    | declared unit k =>
      cases id' with
      | declared unit' k' =>
        have hpair : Nat.pair unit k = Nat.pair unit' k' := by simp only at hloop; omega
        simpa using hpair
      | generated k' => simp only at hloop; omega
    | generated k =>
      cases id' with
      | declared unit' k' => simp only at hloop; omega
      | generated k' =>
        have hk : k = k' := by simp only at hloop; omega
        rw [hk]

/-- A loop that is left from within a conditional runs alike in both forms. -/
theorem Program.canRun_flatten_loop :
    let source := Text.Source.ofString "for i = 1, 9 do if i then break end local x = i end"
    let b := (ofTree (Syntax.Tree.parse source) 0).body
    Store.act.Blind ∧ Hidden.numbered.Private ∧
      ∃ π : Equiv.Perm Local, KeepsDeclared π ∧ ∀ (hidden' : Hidden) (s t : Store) κ o,
        b.CanRun Store.act Hidden.numbered s κ o t ↔
          b.flatten.CanRun Store.act hidden' (π • s) κ o (π • t) :=
  ⟨Store.act_blind, Hidden.numbered_private,
    canRun_flatten _ 0 Store.act_blind Hidden.numbered_private⟩

end Resolved
end LuaFront
