import LuaFront.Proofs.Resolved.Splice
import Mathlib.GroupTheory.Perm.Basic
import Mathlib.Logic.Equiv.Basic

/-!
# LuaFront.Proofs.Resolved.Hidden

It does not matter how the variables of loops are called.

* `Run.rename`: a run with other symbols.
* `Apart`: flattening makes up different variables for different loops.
* `exists_renaming`: so any names that are private to loops can be exchanged for those.
-/

namespace LuaFront
namespace Resolved

open Flatten (count)

/-! ## Runs with other symbols -/

section

variable (π : Local → Local)

def Loop.rename (loop : Loop) : Loop where
  setup := Rename.block π loop.setup
  start := Rename.block π loop.start
  guard := loop.guard.map fun g => (Rename.expression π g.1, g.2)
  early := Rename.block π loop.early
  body := Rename.block π loop.body
  late := Rename.block π loop.late
  stopWhen := loop.stopWhen.map (Rename.expression π)
  exit := loop.exit

def Task.rename : Task → Task
  | .statement x => .statement (Rename.statement π x)
  | .list b rest => .list (Rename.block π b) (Rename.block π rest)
  | .resume b rest o => .resume (Rename.block π b) (Rename.block π rest) o
  | .choose es o => .choose (Rename.branches π es) (Rename.otherwise π o)
  | .turns loop => .turns (loop.rename π)

theorem Rename.heads_block (b : List Statement) : Block.heads (block π b) = Block.heads b := by
  induction b with
  | nil => rfl
  | cons x later ih => cases x <;> simp [Statement.labels, ih]

theorem Rename.after_block (l : Label) (b : List Statement) :
    Block.after l (block π b) = block π (Block.after l b) := by
  induction b with
  | nil => rfl
  | cons x later ih =>
    cases x with
    | label l' =>
      by_cases hl : l' = l
      · simp [Block.after, hl]
      · simp [Block.after, hl, ih]
    | _ => simp [Block.after, ih]

theorem Rename.isSimple_statement (x : Statement) : (statement π x).isSimple = x.isSimple := by
  cases x <;> rfl

/-- The loop of a statement with other symbols. -/
theorem Rename.loop?_statement {x : Statement} {loop : Loop} {hidden : Hidden}
    (h : x.loop? hidden = some loop) :
    (statement π x).loop? (fun e r => π (hidden e r)) = some (loop.rename π) := by
  cases x with
  | whileDo | repeatUntil | numericFor =>
    cases h
    rfl
  | genericFor symbols values b exit => cases symbols <;> cases h <;> rfl
  | _ => cases h

end

section

variable {S : Type} [MulAction (Equiv.Perm Local) S] {act : Evaluator S} {π : Equiv.Perm Local}

/-- An action with other symbols, on a store with other symbols. -/
structure Evaluator.Moves (act : Evaluator S) (π : Equiv.Perm Local) : Prop where
  acts : ∀ {a s t}, act a s t → act (a.rename π) (π • s) (π • t)
  looks : ∀ a : Action, seen (a.rename π) = seen a

theorem Evaluator.Blind.moves (h : act.Blind) (hπ : KeepsDeclared π) : act.Moves π :=
  ⟨(h.renamed π hπ _ _ _).2, fun a => (Quot.sound (.renamed a π hπ)).symm⟩

variable {s t : S} {κ : List Seen}

theorem Performs.rename (hact : act.Moves π) {xs : List Statement} (h : Performs act xs s κ t) :
    Performs act (Rename.block π xs) (π • s) κ (π • t) := by
  induction h with
  | nil => exact .nil
  | @cons x later s u t κ hx _ ih =>
    rw [← hact.looks]
    exact .cons (hact.acts hx) ih

theorem Passes.rename (hact : act.Moves π) {g : Option (Expression × Bool)}
    (h : Passes act g s κ t) :
    Passes act (g.map fun g => (Rename.expression π g.1, g.2)) (π • s) κ (π • t) := by
  cases h with
  | free => exact .free
  | test htest =>
    rw [← hact.looks]
    exact .test (hact.acts htest)

theorem Fails.rename (hact : act.Moves π) {g : Option (Expression × Bool)}
    (h : Fails act g s κ t) :
    Fails act (g.map fun g => (Rename.expression π g.1, g.2)) (π • s) κ (π • t) := by
  cases h with
  | test htest =>
    rw [← hact.looks]
    exact .test (hact.acts htest)

theorem Ends.rename (hact : act.Moves π) {c : Option Expression} {more : Bool}
    (h : Ends act c s κ more t) :
    Ends act (c.map (Rename.expression π)) (π • s) κ more (π • t) := by
  cases h with
  | free => exact .free
  | test htest =>
    rw [← hact.looks]
    exact .test (hact.acts htest)

theorem Loop.Begins.rename (hact : act.Moves π) {loop : Loop} (h : loop.Begins act s κ t) :
    (loop.rename π).Begins act (π • s) κ (π • t) := by
  cases h with
  | mk hstart hpasses hearly =>
    exact .mk (hstart.rename hact) (hpasses.rename hact) (hearly.rename hact)

theorem Run.rename (hact : act.Moves π) {hidden : Hidden} {n : Nat} {task : Task} {o : Outcome}
    (h : Run act hidden n task s κ o t) :
    Run act (fun e r => π (hidden e r)) n (task.rename π) (π • s) κ o (π • t) := by
  induction h with
  | @simple _ x _ _ hx ha =>
    rw [← hact.looks]
    exact .simple (by rwa [Rename.isSimple_statement]) (hact.acts ha)
  | result ha =>
    rw [← hact.looks]
    exact .result (hact.acts ha)
  | goto => exact .goto
  | gotoIf ha =>
    rw [← hact.looks]
    exact .gotoIf (hact.acts ha)
  | stay ha =>
    rw [← hact.looks]
    exact .stay (hact.acts ha)
  | label => exact .label
  | doBlock _ ih => exact .doBlock ih
  | ifThen _ ih => exact .ifThen ih
  | loop hx hsetup _ ih => exact .loop (Rename.loop?_statement π hx) (hsetup.rename hact) ih
  | nil => exact .nil
  | cons _ _ ih₁ ih₂ => exact .cons ih₁ ih₂
  | next _ ih => exact .next ih
  | @caught _ b _ l _ _ _ _ hl _ ih =>
    refine .caught (by rwa [Rename.heads_block]) ?_
    rw [Rename.after_block]
    exact ih
  | passed hl => exact .passed (by rwa [Rename.heads_block])
  | returned => exact .returned
  | none => exact .none
  | otherwise _ ih => exact .otherwise ih
  | chosen ha _ ih =>
    rw [← hact.looks]
    exact .chosen (hact.acts ha) ih
  | skipped ha _ ih =>
    rw [← hact.looks]
    exact .skipped (hact.acts ha) ih
  | stop hstart hfails => exact .stop (hstart.rename hact) (hfails.rename hact)
  | leave hbegins _ ho ih => exact .leave (hbegins.rename hact) ih ho
  | last hbegins _ hlate hends ih =>
    exact .last (hbegins.rename hact) ih (hlate.rename hact) (hends.rename hact)
  | again hbegins _ hlate hends _ ih₁ ih₂ =>
    exact .again (hbegins.rename hact) ih₁ (hlate.rename hact) (hends.rename hact) ih₂

/-- A block whose symbols stay can be run with other variables of loops. -/
theorem Block.canRun_rename (hact : act.Blind) (hπ : KeepsDeclared π) {b : Block}
    (hb : ∀ ρ : Local → Local, KeepsDeclared ρ → Rename.block ρ b = b) {hidden : Hidden}
    {o : Outcome} :
    b.CanRun act hidden s κ o t ↔
      b.CanRun act (fun e r => π (hidden e r)) (π • s) κ o (π • t) := by
  have hinv : KeepsDeclared (π⁻¹ : Equiv.Perm Local) := fun l hl => by
    rw [Equiv.Perm.inv_eq_iff_eq, hπ l hl]
  constructor
  · rintro ⟨n, hrun⟩
    have hrename := hrun.rename (hact.moves hπ)
    rw [Task.rename, hb π hπ] at hrename
    exact ⟨n, hrename⟩
  · rintro ⟨n, hrun⟩
    have hrename := hrun.rename (hact.moves hinv)
    rw [Task.rename, hb _ hinv] at hrename
    exact ⟨n, by simpa using hrename⟩

end

/-! ## The variables that flattening makes up -/

/-- Variables `ps` that are made up from behind number `n` up to number `n'` for loops among whose
ends are `ms`. -/
structure Apart (n n' : Nat) (ms : List Label) (ps : List (Label × Role × Local)) : Prop where
  le : n ≤ n'
  made : ∀ p ∈ ps, ∃ k, p.2.2.id = .generated k ∧ n < k ∧ k ≤ n'
  symbols : (ps.map fun p => p.2.2).Nodup
  exits : ∀ p ∈ ps, p.1 ∈ ms
  keys : ms.Nodup → (ps.map fun p => (p.1, p.2.1)).Nodup

namespace Apart

variable {n m n' : Nat} {a b : List Label} {ps qs : List (Label × Role × Local)}

theorem nothing (h : n ≤ n') (a : List Label) : Apart n n' a [] :=
  ⟨h, by simp, by simp, by simp, by simp⟩

theorem append (h : Apart n m a ps) (h' : Apart m n' b qs) : Apart n n' (a ++ b) (ps ++ qs) where
  le := Nat.le_trans h.le h'.le
  made p hp := by
    rcases List.mem_append.1 hp with hp | hp
    · obtain ⟨k, hk, hlt, hle⟩ := h.made p hp
      exact ⟨k, hk, hlt, hle.trans h'.le⟩
    · obtain ⟨k, hk, hlt, hle⟩ := h'.made p hp
      exact ⟨k, hk, h.le.trans_lt hlt, hle⟩
  symbols := by
    rw [List.map_append]
    refine h.symbols.append h'.symbols fun l hl hl' => ?_
    obtain ⟨p, hp, rfl⟩ := List.mem_map.1 hl
    obtain ⟨q, hq, heq⟩ := List.mem_map.1 hl'
    obtain ⟨k, hk, -, hle⟩ := h.made p hp
    obtain ⟨k', hk', hlt, -⟩ := h'.made q hq
    rw [heq, hk] at hk'
    cases hk'
    omega
  exits p hp := List.mem_append.2 ((List.mem_append.1 hp).imp (h.exits p) (h'.exits p))
  keys hnodup := by
    obtain ⟨ha, hb, hdisjoint⟩ := List.nodup_append'.1 hnodup
    rw [List.map_append]
    refine (h.keys ha).append (h'.keys hb) fun key hkey hkey' => ?_
    obtain ⟨p, hp, rfl⟩ := List.mem_map.1 hkey
    obtain ⟨q, hq, heq⟩ := List.mem_map.1 hkey'
    rw [Prod.mk.injEq] at heq
    exact hdisjoint (h.exits p hp) (heq.1 ▸ h'.exits q hq)

theorem numericFor (n : Nat) (exit : Label) :
    Apart n (n + 3) [exit]
      [(exit, .limit, .made "limit" (n + 2)), (exit, .step, .made "step" (n + 3))] where
  le := by omega
  made := by simp [Local.made, Local.plain]
  symbols := by simp [Local.made, Local.plain]
  exits := by simp
  keys _ := by simp

theorem genericFor (n : Nat) (exit : Label) :
    Apart n (n + 4) [exit]
      [(exit, .iterator, .made "iterator" (n + 2)), (exit, .state, .made "state" (n + 3)),
        (exit, .control, .made "control" (n + 4))] where
  le := by omega
  made := by simp [Local.made, Local.plain]
  symbols := by simp [Local.made, Local.plain]
  exits := by simp
  keys _ := by simp

end Apart

namespace Privates

theorem le_expression (e : Expression) (n : Nat) : n ≤ count (Flatten.expression e) n :=
  (Flatten.expression_kept e n).le

theorem le_expressions (es : List Expression) (n : Nat) : n ≤ count (Flatten.expressions es) n :=
  (Flatten.expressions_kept es n).le

mutual

theorem statement_apart (x : Statement) (n : Nat) :
    Apart n (count (Flatten.statement x) n) ((Spine.statement x).flatMap Statement.marks)
      (statement n x) := by
  cases x with
  | ifThen c b es o =>
    have hc : n ≤ count (Flatten.expression c) (n + 2) :=
      (Nat.le_add_right n 2).trans (le_expression c (n + 2))
    have h := (((Apart.nothing hc []).append (block_apart b _)).append
      (branches_apart (.made (n + 1)) es _)).append (otherwise_apart o _)
    rw [Flatten.count_ifThen, statement]
    simpa [Block.marks, Statement.marks, Flatten.branches] using h
  | whileDo c b exit =>
    have hc : n ≤ count (Flatten.expression c) (n + 1) :=
      (Nat.le_add_right n 1).trans (le_expression c (n + 1))
    have h := (Apart.nothing hc [exit]).append (block_apart b _)
    simpa [Block.marks, Statement.marks, Flatten.statement, statement] using h
  | repeatUntil b c exit =>
    have h := ((Apart.nothing (Nat.le_add_right n 1) [exit]).append (block_apart b _)).append
      (.nothing (le_expression c _) [])
    simpa [Block.marks, Statement.marks, Flatten.statement, statement] using h
  | numericFor counter initial limit step b exit =>
    have h := ((Apart.numericFor n exit).append
      (.nothing (le_expressions [initial, limit, step] _) [])).append (block_apart b _)
    simpa [Block.marks, Statement.marks, Flatten.statement, Flatten.expressions, statement] using h
  | genericFor symbols values b exit =>
    have h := ((Apart.genericFor n exit).append (.nothing (le_expressions values _) [])).append
      (block_apart b _)
    simpa [Block.marks, Statement.marks, Flatten.statement, statement] using h
  | doBlock b =>
    simpa [Block.marks, Statement.marks, Flatten.statement, statement] using block_apart b n
  | expression | assign | declare | result | goto | gotoIf | label =>
    exact .nothing (Flatten.statement_kept _ n).1.le _

theorem branches_apart (stop : Label) (es : List Branch) (n : Nat) :
    Apart n (count (Flatten.branches stop es) n) ((Spine.branches es).flatMap Statement.marks)
      (branches stop n es) := by
  cases es with
  | nil => exact .nothing (Nat.le_refl n) []
  | cons e later =>
    obtain ⟨c, b⟩ := e
    have hc : n ≤ count (Flatten.expression c) (n + 1) :=
      (Nat.le_succ n).trans (le_expression c (n + 1))
    have h := ((Apart.nothing hc []).append (block_apart b _)).append (branches_apart stop later _)
    simpa [Block.marks, Flatten.branches, branches] using h

theorem otherwise_apart (o : Option (List Statement)) (n : Nat) :
    Apart n (count (Flatten.otherwise o) n) ((Spine.otherwise o).flatMap Statement.marks)
      (otherwise n o) := by
  cases o with
  | none => exact .nothing (Nat.le_refl n) []
  | some b => exact block_apart b n

/-- Every loop gets variables of its own. -/
theorem block_apart (b : List Statement) (n : Nat) :
    Apart n (count (Flatten.block b) n) (Block.marks b) (block n b) := by
  cases b with
  | nil => exact .nothing (Nat.le_refl n) []
  | cons x later =>
    rw [Flatten.count_block_cons, Block.marks_cons, block]
    exact (statement_apart x n).append (block_apart later _)

end
end Privates

/-! ## Exchanging symbols -/

/-- Symbols that are made up can be exchanged for others, one for one. -/
theorem exists_renaming {ps : List (Local × Local)} (hfst : (ps.map Prod.fst).Nodup)
    (hsnd : (ps.map Prod.snd).Nodup)
    (hmade : ∀ p ∈ ps, ¬ p.1.isDeclared ∧ ¬ p.2.isDeclared) :
    ∃ π : Equiv.Perm Local, KeepsDeclared π ∧ ∀ p ∈ ps, π p.1 = p.2 := by
  induction ps with
  | nil => exact ⟨1, fun l _ => rfl, by simp⟩
  | cons q later ih =>
    obtain ⟨a, b⟩ := q
    rw [List.map_cons, List.nodup_cons] at hfst hsnd
    rw [List.forall_mem_cons] at hmade
    obtain ⟨π, hπ, hlater⟩ := ih hfst.2 hsnd.2 hmade.2
    refine ⟨Equiv.swap (π a) b * π, fun l hl => ?_, List.forall_mem_cons.2 ⟨?_, fun p hp => ?_⟩⟩
    · have hne : l ≠ π a := by
        intro heq
        rw [← hπ l hl, π.injective.eq_iff] at heq
        exact hmade.1.1 (heq ▸ hl)
      have hne' : l ≠ b := fun heq => hmade.1.2 (heq ▸ hl)
      rw [Equiv.Perm.mul_apply, hπ l hl, Equiv.swap_apply_of_ne_of_ne hne hne']
    · rw [Equiv.Perm.mul_apply, Equiv.swap_apply_left]
    · have hne : p.2 ≠ π a := by
        rw [← hlater p hp, π.injective.ne_iff]
        exact fun heq => hfst.1 (List.mem_map.2 ⟨p, hp, heq⟩)
      have hne' : p.2 ≠ b := fun heq => hsnd.1 (List.mem_map.2 ⟨p, hp, heq⟩)
      rw [Equiv.Perm.mul_apply, hlater p hp, Equiv.swap_apply_of_ne_of_ne hne hne']

end Resolved
end LuaFront
