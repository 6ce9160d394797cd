import LuaFront.Proofs.Resolved.Splice

/-!
# LuaFront.Proofs.Resolved.Simulation

A structured program and its flat form can run in the same ways.

* `Run.jump_mem`: a jump out of something is to a place that its scope grants.
* `Means`: running a piece of a flat list does what running some part of a structured program does,
  and then what the list makes of its outcome.
-/

namespace LuaFront
namespace Resolved

open Flatten (out count)

variable {S : Type} {act : Evaluator S} {hidden : Hidden}

/-! ## Jumps out of a task -/

/-- What the scope of a task grants its jumps, when it grants the places `visible` around it. -/
def Task.Scoped (visible : List Label) : Task → Prop
  | .statement x => Scoped.statement visible x
  | .list b rest =>
    Scoped.list (Block.heads b ++ visible) b ∧ Scoped.list (Block.heads b ++ visible) rest
  | .resume b rest o =>
    (Scoped.list (Block.heads b ++ visible) b ∧ Scoped.list (Block.heads b ++ visible) rest) ∧
      ∀ l, o = .jump l → l ∈ Block.heads b ++ visible
  | .choose es o => Scoped.branches visible es ∧ Scoped.otherwise visible o
  | .turns loop => Scoped.block (loop.exit :: visible) loop.body

theorem Statement.scoped_loop {x : Statement} {loop : Loop} {visible : List Label}
    (hloop : x.loop? hidden = some loop) (h : Scoped.statement visible x) :
    Scoped.block (loop.exit :: visible) loop.body := by
  cases x with
  | whileDo | repeatUntil | numericFor => cases hloop; exact h
  | genericFor symbols values b exit => cases symbols <;> cases hloop <;> exact h
  | _ => cases hloop

theorem Run.jump_mem {n : Nat} {task : Task} {s t : S} {κ : List Seen} {o : Outcome}
    {visible : List Label} (h : Run act hidden n task s κ o t) (hscoped : task.Scoped visible) :
    ∀ l, o = .jump l → l ∈ visible := by
  induction h generalizing visible with
  | goto | gotoIf =>
    rintro _ ⟨⟩
    exact hscoped
  | doBlock _ ih => exact ih ⟨hscoped, hscoped⟩
  | ifThen _ ih => exact ih ⟨⟨hscoped.1, hscoped.2.1⟩, hscoped.2.2⟩
  | loop hloop _ _ ih => exact ih (Statement.scoped_loop hloop hscoped)
  | cons _ _ ih₁ ih₂ => exact ih₂ ⟨⟨hscoped.1, hscoped.2.2⟩, ih₁ hscoped.2.1⟩
  | next _ ih => exact ih hscoped.1
  | @caught _ b _ l _ _ _ _ hl _ ih =>
    refine ih ⟨hscoped.1.1, ?_⟩
    obtain ⟨a, ha⟩ := Block.exists_eq_append_after hl
    have hb := hscoped.1.1
    rw [show Scoped.list (Block.heads b ++ visible) b =
      Scoped.list (Block.heads b ++ visible) (a ++ .label l :: Block.after l b) by rw [← ha]] at hb
    exact (Scoped.list_append.1 hb).2.2
  | passed hl =>
    rintro _ ⟨⟩
    exact (List.mem_append.1 (hscoped.2 _ rfl)).resolve_left hl
  | otherwise _ ih => exact ih ⟨hscoped.2, hscoped.2⟩
  | chosen _ _ ih => exact ih ⟨hscoped.1.1, hscoped.1.1⟩
  | skipped _ _ ih => exact ih ⟨hscoped.1.2, hscoped.2⟩
  | @leave _ loop _ _ _ _ _ o _ _ _ ih =>
    intro l hl
    cases o with
    | jump l' =>
      have hmem := ih ⟨hscoped, hscoped⟩ l' rfl
      simp only [Loop.out] at hl
      split at hl
      · cases hl
      · next hne =>
        cases hl
        exact (List.mem_cons.1 hmem).resolve_left hne
    | fall => cases hl
    | returned => cases hl
  | again _ _ _ _ _ _ ih => exact ih hscoped
  | simple | result | stay | label | nil | returned | none | stop | last =>
    rintro l ⟨⟩

/-! ## Actions that an evaluator cannot tell apart -/

structure Same (act : Evaluator S) (a a' : Action) : Prop where
  acts : ∀ s t, act a' s t ↔ act a s t
  looks : seen a' = seen a

theorem Same.refl (a : Action) : Same act a a := ⟨fun _ _ => .rfl, rfl⟩

theorem Action.isAtomic_of_isSimple {x : Statement} (h : x.isSimple) :
    (perform x).isAtomic := by
  cases x with
  | expression | assign | declare => rfl
  | _ => cases h

theorem Evaluator.Blind.same [MulAction (Equiv.Perm Local) S] (h : act.Blind) {a : Action}
    (ha : a.isAtomic) (n : Nat) : Same act a (a.lowered n) :=
  ⟨h.lowered a ha n, (Quot.sound (.lowered a n ha)).symm⟩

theorem Action.lowered_perform (n : Nat) (x : Statement) :
    (perform x).lowered n = .perform ((out (Flatten.statement x) n).headD x) := rfl

/-- Two simple statements that an evaluator cannot tell apart. -/
def SameSimple (act : Evaluator S) (x y : Statement) : Prop :=
  y.isSimple ∧ Same act (.perform x) (.perform y)

/-! ## Pieces of a flat list -/

/-- A part of a program: what it does to a store, with which actions and outcome. -/
abbrev Meaning (S : Type) := S → List Seen → Outcome → S → Prop

/-- In the list `G`, running `P` and then `post` does what `R` says and then what the list makes of
the outcome. Nothing of the run is left over, and a jump takes a part of its height. -/
structure Means (act : Evaluator S) (hidden : Hidden) (G P post : List Statement)
    (R : Meaning S) : Prop where
  join : ∀ {s κ o u κ' o' t}, R s κ o u → Runs act hidden (.resume G post o) u κ' o' t →
    Runs act hidden (.list G (P ++ post)) s (κ ++ κ') o' t
  split : ∀ {n s κ o' t}, Run act hidden n (.list G (P ++ post)) s κ o' t →
    ∃ m κ₁ κ₂ o u, (m ≤ n ∧ (o ≠ .fall → m < n)) ∧ κ = κ₁ ++ κ₂ ∧ R s κ₁ o u ∧
      Run act hidden m (.resume G post o) u κ₂ o' t

namespace Means

variable {G P Q post : List Statement} {R R' : Meaning S}

theorem congr (h : Means act hidden G P post R) (hR : ∀ s κ o t, R s κ o t ↔ R' s κ o t) :
    Means act hidden G P post R' where
  join hr := h.join ((hR ..).2 hr)
  split hrun := by
    obtain ⟨m, κ₁, κ₂, o, u, hm, hκ, hr, hrest⟩ := h.split hrun
    exact ⟨m, κ₁, κ₂, o, u, hm, hκ, (hR ..).1 hr, hrest⟩

theorem single (x : Statement) :
    Means act hidden G [x] post (Runs act hidden (.statement x)) where
  join hr hrest := hr.cons hrest
  split hrun := by
    cases hrun with
    | cons hx hrest =>
      exact ⟨_, _, _, _, _, ⟨Nat.le_succ _, fun _ => Nat.lt_succ_self _⟩, rfl, ⟨_, hx⟩, hrest⟩

/-- One part, and then the other unless the first jumps. -/
def seq (R R' : Meaning S) : Meaning S := fun s κ o t =>
  (o ≠ .fall ∧ R s κ o t) ∨ ∃ κ₁ κ₂ u, κ = κ₁ ++ κ₂ ∧ R s κ₁ .fall u ∧ R' u κ₂ o t

theorem append (h : Means act hidden G P (Q ++ post) R) (h' : Means act hidden G Q post R') :
    Means act hidden G (P ++ Q) post (seq R R') where
  join := by
    intro s κ o u κ' o' t hr hrest
    rw [List.append_assoc]
    rcases hr with ⟨ho, hr⟩ | ⟨κ₁, κ₂, v, rfl, hr, hr'⟩
    · exact h.join hr (hrest.resume_of_ne ho)
    · rw [List.append_assoc]
      exact h.join hr (Runs.resume_fall.2 (h'.join hr' hrest))
  split := by
    intro n s κ o' t hrun
    rw [List.append_assoc] at hrun
    obtain ⟨m, κ₁, κ₂, o, u, hm, rfl, hr, hresume⟩ := h.split hrun
    cases o with
    | fall =>
      cases hresume with
      | next hlist =>
        obtain ⟨m', κ₃, κ₄, o, v, hm', rfl, hr', hrest⟩ := h'.split hlist
        refine ⟨m', κ₁ ++ κ₃, κ₄, o, v, ⟨by omega, fun ho => ?_⟩, by simp,
          .inr ⟨κ₁, κ₃, u, rfl, hr, hr'⟩, hrest⟩
        have := hm'.2 ho
        omega
    | jump l => exact ⟨m, κ₁, κ₂, _, u, hm, rfl, .inl ⟨by simp, hr⟩, hresume.resume_of_ne (by simp)⟩
    | returned =>
      exact ⟨m, κ₁, κ₂, _, u, hm, rfl, .inl ⟨by simp, hr⟩, hresume.resume_of_ne (by simp)⟩

theorem nil : Means act hidden G [] post fun s κ o t => o = .fall ∧ κ = [] ∧ t = s where
  join := by
    rintro s _ _ _ κ' o' t ⟨rfl, rfl, rfl⟩ hrest
    exact Runs.resume_fall.1 hrest
  split hrun := ⟨_, [], _, .fall, _, ⟨Nat.le_refl _, by simp⟩, rfl, ⟨rfl, rfl, rfl⟩, .next hrun⟩

/-- A jump on a condition. -/
def jumpIf (act : Evaluator S) (l : Label) (c : Expression) (wanted : Bool) : Meaning S :=
  fun s κ o t =>
    (o = .jump l ∧ act (.test c wanted) s t ∧ κ = [seen (.test c wanted)]) ∨
      (o = .fall ∧ act (.test c !wanted) s t ∧ κ = [seen (.test c !wanted)])

theorem gotoIf {l : Label} {c c' : Expression} {wanted : Bool}
    (h : ∀ truth, Same act (.test c truth) (.test c' truth)) :
    Means act hidden G [.gotoIf l c' wanted] post (jumpIf act l c wanted) := by
  refine (single _).congr fun s κ o t => ⟨?_, ?_⟩
  · rintro ⟨n, hrun⟩
    rcases hrun.gotoIf_inv with ⟨rfl, rfl, hact⟩ | ⟨rfl, rfl, hact⟩
    · exact .inl ⟨rfl, ((h _).acts _ _).1 hact, by rw [(h _).looks]⟩
    · exact .inr ⟨rfl, ((h _).acts _ _).1 hact, by rw [(h _).looks]⟩
  · rintro (⟨rfl, hact, rfl⟩ | ⟨rfl, hact, rfl⟩)
    · rw [← (h _).looks]
      exact ⟨0, .gotoIf (((h _).acts _ _).2 hact)⟩
    · rw [← (h _).looks]
      exact ⟨0, .stay (((h _).acts _ _).2 hact)⟩

/-- Simple statements, one behind the other. -/
theorem performs {xs ys : List Statement}
    (h : List.Forall₂ (SameSimple act) xs ys) :
    Means act hidden G ys post fun s κ o t => o = .fall ∧ Performs act xs s κ t := by
  induction h with
  | nil =>
    refine Means.nil.congr fun s κ o t => and_congr_right fun _ => ⟨?_, ?_⟩
    · rintro ⟨rfl, rfl⟩
      exact .nil
    · rintro ⟨⟩
      exact ⟨rfl, rfl⟩
  | @cons x y xs ys hxy _ ih =>
    refine ((single y).append ih).congr fun s κ o t => ⟨?_, ?_⟩
    · rintro (⟨ho, n, hy⟩ | ⟨κ₁, κ₂, u, rfl, ⟨n, hy⟩, rfl, hlater⟩)
      · exact absurd (hy.simple_inv hxy.1).2.1 ho
      · obtain ⟨rfl, -, hact⟩ := hy.simple_inv hxy.1
        rw [hxy.2.looks]
        exact ⟨rfl, .cons ((hxy.2.acts _ _).1 hact) hlater⟩
    · rintro ⟨rfl, hperforms⟩
      cases hperforms with
      | @cons _ _ _ u _ κ hact hlater =>
        refine .inr ⟨[seen (.perform y)], κ, u, by rw [hxy.2.looks]; rfl, ⟨0, ?_⟩, rfl, hlater⟩
        exact .simple hxy.1 ((hxy.2.acts _ _).2 hact)

end Means

/-! ## Lists of statements -/

section

variable {b G post : List Statement} {n : Nat}

/-- A label of a list is one of the flat list, with the rest of the list behind it. -/
theorem Block.after_flat {l : Label} {a : List Statement} (hnodup : (heads G).Nodup)
    (hsuffix : out (Flatten.block b) n ++ post <:+ G) (hb : b = a ++ .label l :: after l b) :
    l ∈ heads G ∧ after l G =
      out (Flatten.block (after l b)) (count (Flatten.block (a ++ [.label l])) n) ++ post := by
  refine after_eq ?_ hnodup
  refine List.IsSuffix.trans ⟨out (Flatten.block a) n, ?_⟩ hsuffix
  have hsplit : b = (a ++ [.label l]) ++ after l b := by simpa using hb
  conv_rhs => rw [hsplit]
  rw [Flatten.out_block_append, Flatten.out_block_append]
  simp [Flatten.block, Flatten.statement]

/-- The flat form of `b`, from number `n` on, stands in the list `G` in front of `post`, and its
statements mean what they meant. -/
structure Laid (act : Evaluator S) (hidden : Hidden) (b G post : List Statement) (n : Nat) :
    Prop where
  nodup : (Block.heads G).Nodup
  suffix : out (Flatten.block b) n ++ post <:+ G
  means : ∀ a x later, b = a ++ x :: later →
    Means act hidden G (out (Flatten.statement x) (count (Flatten.block a) n))
      (out (Flatten.block later) (count (Flatten.block (a ++ [x])) n) ++ post)
      (Runs act hidden (.statement x))

namespace Laid

theorem out_cons (a : List Statement) (x : Statement) (later : List Statement) :
    out (Flatten.block (x :: later)) (count (Flatten.block a) n) ++ post =
      out (Flatten.statement x) (count (Flatten.block a) n) ++
        (out (Flatten.block later) (count (Flatten.block (a ++ [x])) n) ++ post) := by
  rw [Flatten.out_block_cons, Flatten.count_block_snoc, List.append_assoc]

theorem join (h : Laid act hidden b G post n) (k : Nat) {a rest : List Statement}
    (hb : b = a ++ rest) {s u t : S} {κ κ' : List Seen} {o o' : Outcome}
    (hrun : Run act hidden k (.list b rest) s κ o u)
    (hrest : Runs act hidden (.resume G post o) u κ' o' t) :
    Runs act hidden (.list G (out (Flatten.block rest) (count (Flatten.block a) n) ++ post)) s
      (κ ++ κ') o' t := by
  induction k using Nat.strongRecOn generalizing a rest s κ with
  | _ k ih =>
    cases hrun with
    | nil => simpa [Flatten.block] using Runs.resume_fall.1 hrest
    | @cons k _ rest x _ v _ κ₁ κ₂ o₁ _ hx hresume =>
      rw [out_cons, List.append_assoc]
      refine (h.means a x rest hb).join ⟨k, hx⟩ ?_
      cases hresume with
      | next hlist => exact Runs.resume_fall.2 (ih k (Nat.lt_succ_self k) (by simpa using hb) hlist)
      | @caught _ _ _ l _ _ _ _ hl hlist =>
        obtain ⟨a', ha'⟩ := Block.exists_eq_append_after hl
        obtain ⟨hmem, hafter⟩ := Block.after_flat h.nodup h.suffix ha'
        obtain ⟨m, hm⟩ := ih k (Nat.lt_succ_self k) (a := a' ++ [.label l]) (by simpa using ha') hlist
        exact ⟨m, .caught hmem (hafter ▸ hm)⟩
      | passed hl => exact Runs.resume_of_ne (by simp) hrest
      | returned => exact Runs.resume_of_ne (by simp) hrest

theorem split (h : Laid act hidden b G post n) (k : Nat) {a rest : List Statement}
    (hb : b = a ++ rest) {s t : S} {κ : List Seen} {o' : Outcome}
    (hrun : Run act hidden k
      (.list G (out (Flatten.block rest) (count (Flatten.block a) n) ++ post)) s κ o' t) :
    ∃ m κ₁ κ₂ o u, (m ≤ k ∧ (o ≠ .fall → m < k)) ∧ κ = κ₁ ++ κ₂ ∧
      Runs act hidden (.list b rest) s κ₁ o u ∧ Run act hidden m (.resume G post o) u κ₂ o' t := by
  -- A jump within the list may lead back, but then the run that is left is shorter.
  induction k using Nat.strongRecOn generalizing a rest s κ with
  | _ k ih =>
    induction rest generalizing a s κ with
    | nil =>
      rw [show out (Flatten.block []) (count (Flatten.block a) n) = [] by simp [Flatten.block]] at hrun
      exact ⟨k, [], κ, .fall, s, ⟨Nat.le_refl k, by simp⟩, rfl, ⟨0, .nil⟩, .next hrun⟩
    | cons x later ihlater =>
      rw [out_cons] at hrun
      obtain ⟨m₁, κ₁, κ₂, o₁, v, ⟨hle, hlt⟩, rfl, hx, hresume⟩ := (h.means a x later hb).split hrun
      -- What the list does next, as a run of the rest or of the part behind a label.
      have hcons {m : Nat} {κ₃ κ₄ : List Seen} {o : Outcome} {u : S}
          (hm : m ≤ k ∧ (o ≠ .fall → m < k)) (hκ : κ₂ = κ₃ ++ κ₄)
          (hlist : Runs act hidden (.resume b later o₁) v κ₃ o u)
          (hrest : Run act hidden m (.resume G post o) u κ₄ o' t) :
          ∃ m κ₁' κ₂' o u, (m ≤ k ∧ (o ≠ .fall → m < k)) ∧ κ₁ ++ κ₂ = κ₁' ++ κ₂' ∧
            Runs act hidden (.list b (x :: later)) s κ₁' o u ∧
            Run act hidden m (.resume G post o) u κ₂' o' t :=
        ⟨m, κ₁ ++ κ₃, κ₄, o, u, hm, by rw [hκ, List.append_assoc], hx.cons hlist, hrest⟩
      cases hresume with
      | next hlist =>
        obtain ⟨m, κ₃, κ₄, o, u, hm, hκ, hlater, hrest⟩ :=
          ihlater (by simpa using hb) (hlist.mono hle)
        exact hcons hm hκ (Runs.resume_fall.2 hlater) hrest
      | @caught _ _ _ l _ _ _ _ hl hlist =>
        have hlt := hlt (by simp)
        by_cases hmem : l ∈ Block.heads b
        · obtain ⟨a', ha'⟩ := Block.exists_eq_append_after hmem
          rw [(Block.after_flat h.nodup h.suffix ha').2] at hlist
          obtain ⟨m, κ₃, κ₄, o, u, hm, hκ, ⟨j, hj⟩, hrest⟩ :=
            ih m₁ hlt (a := a' ++ [.label l]) (by simpa using ha') hlist
          exact hcons ⟨by omega, by omega⟩ hκ ⟨j, .caught hmem hj⟩ hrest
        · exact hcons ⟨hle, fun _ => hlt⟩ rfl ⟨0, .passed hmem⟩ (.caught hl hlist)
      | @passed _ _ _ l _ hl =>
        have hmem : l ∉ Block.heads b := fun hmem => by
          obtain ⟨a', ha'⟩ := Block.exists_eq_append_after hmem
          exact hl (Block.after_flat h.nodup h.suffix ha').1
        exact hcons ⟨hle, fun _ => hlt (by simp)⟩ rfl ⟨0, .passed hmem⟩ (.passed hl)
      | returned => exact hcons ⟨hle, fun _ => hlt (by simp)⟩ rfl ⟨0, .returned⟩ .returned

/-- A list means what it meant. -/
theorem list_means (h : Laid act hidden b G post n) :
    Means act hidden G (out (Flatten.block b) n) post (Runs act hidden (.list b b)) where
  join := by
    rintro s κ o u κ' o' t ⟨k, hrun⟩ hrest
    exact h.join k (a := []) rfl hrun hrest
  split hrun := h.split _ (a := []) rfl hrun

end Laid
end

/-! ## Loops -/

namespace Loop

/-- Two loops of the same turns, but for their bodies. -/
structure Like (act : Evaluator S) (loop loop' : Loop) : Prop where
  setup : List.Forall₂ (SameSimple act) loop.setup loop'.setup
  start : List.Forall₂ (SameSimple act) loop.start loop'.start
  guard : Option.Rel
    (fun g g' => g'.2 = g.2 ∧ ∀ truth, Same act (.test g.1 truth) (.test g'.1 truth))
    loop.guard loop'.guard
  early : List.Forall₂ (SameSimple act) loop.early loop'.early
  late : List.Forall₂ (SameSimple act) loop.late loop'.late
  stopWhen : Option.Rel (fun c c' => ∀ truth, Same act (.test c truth) (.test c' truth))
    loop.stopWhen loop'.stopWhen
  exit : loop'.exit = loop.exit

/-- The way out of a turn at its start. -/
def guardCode (exit : Label) : Option (Expression × Bool) → Block
  | none => []
  | some (c, wanted) => [.gotoIf exit c !wanted]

/-- The way from the end of a turn to its start. -/
def backCode (again : Label) : Option Expression → Statement
  | none => .goto again
  | some c => .gotoIf again c false

/-- All of a turn before the body. -/
def before (loop : Loop) : Block := loop.start ++ (guardCode loop.exit loop.guard ++ loop.early)

/-- All of a turn behind the body. -/
def behind (loop : Loop) (again : Label) : Block := loop.late ++ [backCode again loop.stopWhen]

variable {loop loop' : Loop} {G post : List Statement} {again : Label}

theorem guardCode_means {exit : Label} {g g' : Option (Expression × Bool)}
    (h : Option.Rel
      (fun g g' => g'.2 = g.2 ∧ ∀ truth, Same act (.test g.1 truth) (.test g'.1 truth)) g g') :
    Means act hidden G (guardCode exit g') post fun s κ o t =>
      (o = .fall ∧ Passes act g s κ t) ∨ o = .jump exit ∧ Fails act g s κ t := by
  cases h with
  | none =>
    refine Means.nil.congr fun s κ o t => ⟨?_, ?_⟩
    · rintro ⟨rfl, rfl, rfl⟩
      exact .inl ⟨rfl, .free⟩
    · rintro (⟨rfl, ⟨⟩⟩ | ⟨rfl, ⟨⟩⟩)
      exact ⟨rfl, rfl, rfl⟩
  | @some g g' h =>
    obtain ⟨c, wanted⟩ := g
    obtain ⟨c', wanted'⟩ := g'
    obtain ⟨rfl, hsame⟩ := h
    refine (Means.gotoIf hsame).congr fun s κ o t => ⟨?_, ?_⟩
    · rintro (⟨rfl, hact, rfl⟩ | ⟨rfl, hact, rfl⟩)
      · exact .inr ⟨rfl, .test hact⟩
      · rw [Bool.not_not] at hact ⊢
        exact .inl ⟨rfl, .test hact⟩
    · rintro (⟨rfl, ⟨hact⟩⟩ | ⟨rfl, ⟨hact⟩⟩)
      · exact .inr ⟨rfl, by rwa [Bool.not_not], by rw [Bool.not_not]⟩
      · exact .inl ⟨rfl, hact, rfl⟩

/-- A turn begins, or the loop is left. -/
def Before (act : Evaluator S) (loop : Loop) : Meaning S := fun s κ o t =>
  (o = .fall ∧ loop.Begins act s κ t) ∨ (o = .jump loop.exit ∧
    ∃ κ₁ κ₂ u, κ = κ₁ ++ κ₂ ∧ Performs act loop.start s κ₁ u ∧ Fails act loop.guard u κ₂ t)

/-- A turn ends, with one more or without. -/
def Behind (act : Evaluator S) (loop : Loop) (again : Label) : Meaning S := fun s κ o t =>
  ∃ κ₁ κ₂ u more, κ = κ₁ ++ κ₂ ∧ Performs act loop.late s κ₁ u ∧
    Ends act loop.stopWhen u κ₂ more t ∧ o = if more then .jump again else .fall

theorem before_means (h : loop.Like act loop') :
    Means act hidden G loop'.before post (loop.Before act) := by
  rw [before, h.exit]
  refine ((Means.performs h.start).append ((guardCode_means h.guard).append
    (Means.performs h.early))).congr fun s κ o t => ⟨?_, ?_⟩
  · rintro (⟨ho, rfl, -⟩ | ⟨κ₁, κ₂, u, rfl, ⟨-, hstart⟩, hrest⟩)
    · exact absurd rfl ho
    · rcases hrest with ⟨ho, ⟨rfl, -⟩ | ⟨rfl, hfails⟩⟩ | ⟨κ₃, κ₄, v, rfl, hguard, rfl, hearly⟩
      · exact absurd rfl ho
      · exact .inr ⟨rfl, κ₁, κ₂, u, rfl, hstart, hfails⟩
      · rcases hguard with ⟨-, hpasses⟩ | ⟨ho, -⟩
        · rw [← List.append_assoc]
          exact .inl ⟨rfl, .mk hstart hpasses hearly⟩
        · cases ho
  · rintro (⟨rfl, hbegins⟩ | ⟨rfl, κ₁, κ₂, u, rfl, hstart, hfails⟩)
    · cases hbegins with
      | @mk u v _ κ₁ κ₂ κ₃ hstart hpasses hearly =>
        exact .inr ⟨κ₁, κ₂ ++ κ₃, u, by simp, ⟨rfl, hstart⟩,
          .inr ⟨κ₂, κ₃, v, rfl, .inl ⟨rfl, hpasses⟩, rfl, hearly⟩⟩
    · exact .inr ⟨κ₁, κ₂, u, rfl, ⟨rfl, hstart⟩, .inl ⟨by simp, .inr ⟨rfl, hfails⟩⟩⟩

theorem backCode_means {c c' : Option Expression}
    (h : Option.Rel (fun c c' => ∀ truth, Same act (.test c truth) (.test c' truth)) c c') :
    Means act hidden G [backCode again c'] post fun s κ o t =>
      ∃ more, Ends act c s κ more t ∧ o = if more then .jump again else .fall := by
  cases h with
  | none =>
    refine (Means.single (.goto again)).congr fun s κ o t => ⟨?_, ?_⟩
    · rintro ⟨n, hrun⟩
      obtain ⟨rfl, rfl, rfl⟩ := hrun.goto_inv
      exact ⟨true, .free, rfl⟩
    · rintro ⟨_, ⟨⟩, rfl⟩
      exact ⟨0, .goto⟩
  | some hsame =>
    refine (Means.gotoIf hsame).congr fun s κ o t => ⟨?_, ?_⟩
    · rintro (⟨rfl, hact, rfl⟩ | ⟨rfl, hact, rfl⟩)
      · exact ⟨true, .test hact, rfl⟩
      · exact ⟨false, .test hact, rfl⟩
    · rintro ⟨more, hends, rfl⟩
      cases hends with
      | @test _ truth _ _ hact =>
        cases truth with
        | false => exact .inl ⟨rfl, hact, rfl⟩
        | true => exact .inr ⟨rfl, hact, rfl⟩

theorem behind_means (h : loop.Like act loop') :
    Means act hidden G (loop'.behind again) post (loop.Behind act again) := by
  refine ((Means.performs h.late).append (backCode_means h.stopWhen)).congr
    fun s κ o t => ⟨?_, ?_⟩
  · rintro (⟨ho, rfl, -⟩ | ⟨κ₁, κ₂, u, rfl, ⟨-, hlate⟩, more, hends, rfl⟩)
    · exact absurd rfl ho
    · exact ⟨κ₁, κ₂, u, more, rfl, hlate, hends, rfl⟩
  · rintro ⟨κ₁, κ₂, u, more, rfl, hlate, hends, rfl⟩
    exact .inr ⟨κ₁, κ₂, u, rfl, ⟨rfl, hlate⟩, more, hends, rfl⟩

/-- A turn, with `body` for the body. -/
def code (loop : Loop) (again : Label) (body : Block) : Block :=
  loop.before ++ (body ++ (loop.behind again ++ [.label loop.exit]))

/-- The flat form of a loop stands in the list `G` in front of `post`. -/
structure Laid (act : Evaluator S) (hidden : Hidden) (loop loop' : Loop) (again : Label)
    (body G post : List Statement) : Prop where
  like : loop.Like act loop'
  atAgain : again ∈ Block.heads G ∧ Block.after again G = loop'.code again body ++ post
  atExit : loop.exit ∈ Block.heads G ∧ Block.after loop.exit G = post
  body : Means act hidden G body (loop'.behind again ++ .label loop.exit :: post)
    (Runs act hidden (.list loop.body loop.body))

namespace Laid

variable {body : List Statement}

theorem code_append (h : Laid act hidden loop loop' again body G post) :
    loop'.code again body ++ post =
      loop'.before ++ (body ++ (loop'.behind again ++ .label loop.exit :: post)) := by
  simp [code, h.like.exit]

theorem behind (h : Laid act hidden loop loop' again body G post) :
    Means act hidden G (loop'.behind again) (.label loop.exit :: post) (loop.Behind act again) :=
  behind_means h.like

theorem resume_exit (h : Laid act hidden loop loop' again body G post) {rest : List Statement}
    {s t : S} {κ : List Seen} {o : Outcome} (hrest : Runs act hidden (.list G post) s κ o t) :
    Runs act hidden (.resume G rest (.jump loop.exit)) s κ o t := by
  obtain ⟨n, hrest⟩ := hrest
  exact ⟨n, .caught h.atExit.1 (by rwa [h.atExit.2])⟩

theorem of_resume_exit (h : Laid act hidden loop loop' again body G post) {rest : List Statement}
    {n : Nat} {s t : S} {κ : List Seen} {o : Outcome}
    (hrun : Run act hidden n (.resume G rest (.jump loop.exit)) s κ o t) :
    Run act hidden n (.list G post) s κ o t := by
  cases hrun with
  | caught _ hlist => rwa [h.atExit.2] at hlist
  | passed hl => exact absurd h.atExit.1 hl

/-- What a list makes of a body that was left is what it makes of the loop. -/
theorem resume_out (h : Laid act hidden loop loop' again body G post) {rest : List Statement}
    {s t : S} {κ : List Seen} {o o' : Outcome} (ho : o ≠ .fall)
    (hrest : Runs act hidden (.resume G post (loop.out o)) s κ o' t) :
    Runs act hidden (.resume G rest o) s κ o' t := by
  cases o with
  | fall => exact absurd rfl ho
  | returned => exact hrest.resume_of_ne ho
  | jump l =>
    by_cases hl : l = loop.exit
    · subst hl
      simp only [out, if_true] at hrest
      exact h.resume_exit (Runs.resume_fall.1 hrest)
    · simp only [out, if_neg hl] at hrest
      exact hrest.resume_of_ne ho

theorem of_resume_out (h : Laid act hidden loop loop' again body G post) {rest : List Statement}
    {n : Nat} {s t : S} {κ : List Seen} {o o' : Outcome} (ho : o ≠ .fall)
    (hrun : Run act hidden n (.resume G rest o) s κ o' t) :
    Run act hidden n (.resume G post (loop.out o)) s κ o' t := by
  cases o with
  | fall => exact absurd rfl ho
  | returned => exact hrun.resume_of_ne ho
  | jump l =>
    by_cases hl : l = loop.exit
    · subst hl
      simp only [out, if_true]
      exact .next (h.of_resume_exit hrun)
    · simp only [out, if_neg hl]
      exact hrun.resume_of_ne ho

theorem join (h : Laid act hidden loop loop' again body G post) (k : Nat) {s u t : S}
    {κ κ' : List Seen} {o o' : Outcome} (hrun : Run act hidden k (.turns loop) s κ o u)
    (hrest : Runs act hidden (.resume G post o) u κ' o' t) :
    Runs act hidden (.list G (loop'.code again body ++ post)) s (κ ++ κ') o' t := by
  induction k using Nat.strongRecOn generalizing s κ with
  | _ k ih =>
    rw [h.code_append]
    cases hrun with
    | @stop _ _ _ v _ κ₁ κ₂ hstart hfails =>
      exact (before_means h.like).join (.inr ⟨rfl, κ₁, κ₂, v, rfl, hstart, hfails⟩)
        (h.resume_exit (Runs.resume_fall.1 hrest))
    | leave hbegins hbody ho =>
      rw [List.append_assoc]
      exact (before_means h.like).join (.inl ⟨rfl, hbegins⟩)
        (Runs.resume_fall.2 (h.body.join ⟨_, hbody⟩ (h.resume_out ho hrest)))
    | @last _ _ _ _ _ w _ _ _ κ₃ κ₄ hbegins hbody hlate hends =>
      have hexit : Runs act hidden (.list G (.label loop.exit :: post)) u κ' o' t :=
        Runs.cons (κ := []) ⟨0, .label⟩ hrest
      have hmore : loop.Behind act again _ _ .fall u := ⟨κ₃, κ₄, w, false, rfl, hlate, hends, rfl⟩
      have hbehind := h.behind.join hmore (Runs.resume_fall.2 hexit)
      simpa using (before_means h.like).join (.inl ⟨rfl, hbegins⟩)
        (Runs.resume_fall.2 (h.body.join ⟨_, hbody⟩ (Runs.resume_fall.2 hbehind)))
    | @again k _ _ _ _ w x _ _ _ κ₃ κ₄ κ₅ _ hbegins hbody hlate hends hturns =>
      obtain ⟨m, hm⟩ := ih k (Nat.lt_succ_self k) hturns
      have hmore : loop.Behind act again _ _ (.jump again) x :=
        ⟨κ₃, κ₄, w, true, rfl, hlate, hends, rfl⟩
      have hbehind := h.behind.join hmore
        ⟨m, .caught h.atAgain.1 (by rwa [h.atAgain.2])⟩
      simpa using (before_means h.like).join (.inl ⟨rfl, hbegins⟩)
        (Runs.resume_fall.2 (h.body.join ⟨_, hbody⟩ (Runs.resume_fall.2 hbehind)))

theorem split (h : Laid act hidden loop loop' again body G post) (k : Nat) {s t : S}
    {κ : List Seen} {o' : Outcome}
    (hrun : Run act hidden k (.list G (loop'.code again body ++ post)) s κ o' t) :
    ∃ m κ₁ κ₂ o u, (m ≤ k ∧ (o ≠ .fall → m < k)) ∧ κ = κ₁ ++ κ₂ ∧
      Runs act hidden (.turns loop) s κ₁ o u ∧ Run act hidden m (.resume G post o) u κ₂ o' t := by
  -- Each turn but the last jumps back, and the run that is left is shorter.
  induction k using Nat.strongRecOn generalizing s κ with
  | _ k ih =>
    rw [h.code_append] at hrun
    obtain ⟨m₁, κ₁, κ', o₁, u, hm₁, rfl, hbefore, hresume⟩ := (before_means h.like).split hrun
    rcases hbefore with ⟨rfl, hbegins⟩ | ⟨rfl, κ₂, κ₃, v, rfl, hstart, hfails⟩
    · cases hresume with
      | next hlist =>
        obtain ⟨m₂, κ₂, κ', o₂, v, hm₂, rfl, ⟨j, hbody⟩, hresume⟩ := h.body.split hlist
        by_cases ho : o₂ = .fall
        · subst ho
          cases hresume with
          | next hlist =>
            obtain ⟨m₃, _, κ', o₃, x, hm₃, rfl, ⟨κ₃, κ₄, w, more, rfl, hlate, hends, rfl⟩, hresume⟩ :=
              h.behind.split hlist
            cases more with
            | false =>
              cases hresume with
              | next hlist =>
                cases hlist with
                | cons hlabel hrest =>
                  obtain ⟨rfl, rfl, rfl⟩ := hlabel.label_inv
                  exact ⟨_, κ₁ ++ κ₂ ++ κ₃ ++ κ₄, _, .fall, _, ⟨by omega, by simp⟩, by simp,
                    ⟨_, .last hbegins hbody hlate hends⟩, hrest⟩
            | true =>
              have hlt := hm₃.2 (by simp)
              cases hresume with
              | passed hl => exact absurd h.atAgain.1 hl
              | caught _ hlist =>
                rw [h.atAgain.2] at hlist
                obtain ⟨m, κ₅, κ₆, o, u', hm, rfl, ⟨i, hturns⟩, hrest⟩ :=
                  ih m₃ (by omega) hlist
                refine ⟨m, κ₁ ++ κ₂ ++ κ₃ ++ κ₄ ++ κ₅, κ₆, o, u', ⟨by omega, fun _ => by omega⟩,
                  by simp, ⟨max j i + 1, ?_⟩, hrest⟩
                exact .again hbegins (hbody.mono (Nat.le_max_left ..)) hlate hends
                  (hturns.mono (Nat.le_max_right ..))
        · have hlt := hm₂.2 ho
          exact ⟨m₂, κ₁ ++ κ₂, κ', loop.out o₂, v, ⟨by omega, fun _ => by omega⟩, by simp,
            ⟨j + 1, .leave hbegins hbody ho⟩, h.of_resume_out ho hresume⟩
    · exact ⟨m₁, κ₂ ++ κ₃, κ', .fall, u, ⟨hm₁.1, by simp⟩, rfl, ⟨0, .stop hstart hfails⟩,
        .next (h.of_resume_exit hresume)⟩

/-- The turns of a loop mean what they meant. -/
theorem turns_means (h : Laid act hidden loop loop' again body G post) :
    Means act hidden G (loop'.code again body) post (Runs act hidden (.turns loop)) where
  join := by
    rintro s κ o u κ' o' t ⟨k, hrun⟩ hrest
    exact h.join k hrun hrest
  split hrun := h.split _ hrun

/-- A loop means what it meant. -/
theorem statement_means (h : Laid act hidden loop loop' again body G post) {x : Statement}
    (hx : x.loop? hidden = some loop) :
    Means act hidden G (loop'.setup ++ (.label again :: loop'.code again body)) post
      (Runs act hidden (.statement x)) := by
  refine ((Means.performs h.like.setup).append
    ((Means.single (.label again)).append h.turns_means)).congr fun s κ o t => ⟨?_, ?_⟩
  · rintro (⟨ho, rfl, -⟩ | ⟨κ₁, κ', u, rfl, ⟨-, hsetup⟩, hrest⟩)
    · exact absurd rfl ho
    · rcases hrest with ⟨ho, n, hlabel⟩ | ⟨_, κ₂, v, rfl, ⟨n, hlabel⟩, m, hturns⟩
      · exact absurd hlabel.label_inv.2.1 ho
      · obtain ⟨rfl, -, rfl⟩ := hlabel.label_inv
        exact ⟨m + 1, .loop hx hsetup hturns⟩
  · rintro ⟨n, hrun⟩
    obtain ⟨κ₁, κ₂, u, rfl, hsetup, hturns⟩ := hrun.loop_inv hx
    exact .inr ⟨κ₁, κ₂, u, rfl, ⟨rfl, hsetup⟩, .inr ⟨[], κ₂, u, rfl, ⟨0, .label⟩, hturns⟩⟩

end Laid
end Loop

/-! ## Conditionals -/

section

variable {G post : List Statement} {stop next : Label} {c c' : Expression}
  {b b' later : List Statement} {es : List Branch} {otherwise : Option (List Statement)}

/-- A branch in front of the others, each of which jumps to `stop` at its end. -/
theorem branch_means (hsame : ∀ truth, Same act (.test c truth) (.test c' truth))
    (hnext : next ∈ Block.heads G ∧ Block.after next G = later ++ post)
    (hstop : stop ∈ Block.heads G ∧ Block.after stop G = post)
    (hbody : Means act hidden G b' (.goto stop :: .label next :: (later ++ post))
      (Runs act hidden (.list b b)))
    (hlater : Means act hidden G later post (Runs act hidden (.choose es otherwise))) :
    Means act hidden G (.gotoIf next c' false :: (b' ++ .goto stop :: .label next :: later)) post
      (Runs act hidden (.choose (⟨c, b⟩ :: es) otherwise)) where
  join := by
    rintro s κ o u κ' o' t ⟨k, hrun⟩ hrest
    have hif : Means act hidden G [.gotoIf next c' false]
        (b' ++ .goto stop :: .label next :: (later ++ post)) (Means.jumpIf act next c false) :=
      Means.gotoIf hsame
    cases hrun with
    | @chosen k _ _ _ _ _ v _ κ _ htest hrun =>
      have hend : Runs act hidden (.resume G (.goto stop :: .label next :: (later ++ post)) o) u κ'
          o' t := by
        by_cases ho : o = .fall
        · subst ho
          obtain ⟨m, hm⟩ := Runs.resume_fall.1 hrest
          have hgoto : Runs act hidden (.list G (.goto stop :: .label next :: (later ++ post))) u
              ([] ++ κ') o' t :=
            Runs.cons ⟨0, .goto⟩ ⟨m, .caught hstop.1 (by rwa [hstop.2])⟩
          exact Runs.resume_fall.2 hgoto
        · exact hrest.resume_of_ne ho
      simpa using hif.join (.inr ⟨rfl, htest, rfl⟩)
        (Runs.resume_fall.2 (hbody.join ⟨k, hrun⟩ hend))
    | skipped htest hrun =>
      obtain ⟨m, hm⟩ := hlater.join ⟨_, hrun⟩ hrest
      simpa using hif.join (.inl ⟨rfl, htest, rfl⟩) ⟨m, .caught hnext.1 (by rwa [hnext.2])⟩
  split := by
    intro n s κ o' t hrun
    have hif : Means act hidden G [.gotoIf next c' false]
        (b' ++ .goto stop :: .label next :: (later ++ post)) (Means.jumpIf act next c false) :=
      Means.gotoIf hsame
    have hcode : .gotoIf next c' false :: (b' ++ .goto stop :: .label next :: later) ++ post =
        [.gotoIf next c' false] ++ (b' ++ .goto stop :: .label next :: (later ++ post)) := by simp
    rw [hcode] at hrun
    obtain ⟨m₁, _, κ₁, _, u, hm₁, rfl, ⟨rfl, htest, rfl⟩ | ⟨rfl, htest, rfl⟩, hresume⟩ :=
      hif.split hrun
    · have hlt := hm₁.2 (by simp)
      cases hresume with
      | passed hl => exact absurd hnext.1 hl
      | caught _ hlist =>
        rw [hnext.2] at hlist
        obtain ⟨m, κ₂, κ₃, o, v, hm, rfl, ⟨k, hchoose⟩, hrest⟩ := hlater.split hlist
        exact ⟨m, _ :: κ₂, κ₃, o, v, ⟨by omega, fun _ => by omega⟩, rfl,
          ⟨k + 1, .skipped htest hchoose⟩, hrest⟩
    · cases hresume with
      | next hlist =>
        obtain ⟨m₂, κ₂, κ₃, o, v, hm₂, rfl, ⟨k, hblock⟩, hresume⟩ := hbody.split hlist
        by_cases ho : o = .fall
        · subst ho
          cases hresume with
          | next hlist =>
            cases hlist with
            | cons hgoto hresume =>
              obtain ⟨rfl, rfl, rfl⟩ := hgoto.goto_inv
              cases hresume with
              | passed hl => exact absurd hstop.1 hl
              | caught _ hlist =>
                rw [hstop.2] at hlist
                exact ⟨_, _ :: κ₂, _, .fall, _, ⟨by omega, by simp⟩, rfl,
                  ⟨k + 1, .chosen htest hblock⟩, .next hlist⟩
        · have hlt := hm₂.2 ho
          exact ⟨m₂, _ :: κ₂, κ₃, o, v, ⟨by omega, fun _ => by omega⟩, rfl,
            ⟨k + 1, .chosen htest hblock⟩, hresume.resume_of_ne ho⟩

end

/-! ## Every construct -/

/-- Wherever the flat form of a statement stands, it means what the statement does. -/
def Statement.Sound (act : Evaluator S) (hidden : Hidden) (x : Statement) : Prop :=
  ∀ n G post, Fits hidden (Privates.statement n x) → (Block.heads G).Nodup →
    out (Flatten.statement x) n ++ post <:+ G →
      Means act hidden G (out (Flatten.statement x) n) post (Runs act hidden (.statement x))

def Block.Sound (act : Evaluator S) (hidden : Hidden) (b : List Statement) : Prop :=
  ∀ n G post, Fits hidden (Privates.block n b) → (heads G).Nodup →
    out (Flatten.block b) n ++ post <:+ G →
      Means act hidden G (out (Flatten.block b) n) post (Runs act hidden (.list b b))

theorem Block.sound_of_statements {b : List Statement} (h : ∀ x ∈ b, x.Sound act hidden) :
    Block.Sound act hidden b := by
  intro n G post hfits hnodup hsuffix
  refine Laid.list_means ⟨hnodup, hsuffix, ?_⟩
  rintro a x later rfl
  rw [Privates.block_append, fits_append, Privates.block, fits_append] at hfits
  refine h x (by simp) _ _ _ hfits.2.1 hnodup (.trans ⟨out (Flatten.block a) n, ?_⟩ hsuffix)
  rw [Flatten.out_block_append, Flatten.out_block_cons, Flatten.count_block_snoc]
  simp

/-- A statement whose flat form is one statement that does the same. -/
theorem Statement.sound_of_single {x : Statement} {y : Nat → Statement}
    (hout : ∀ n, out (Flatten.statement x) n = [y n])
    (hruns : ∀ n, Fits hidden (Privates.statement n x) → ∀ s κ o t,
      Runs act hidden (.statement (y n)) s κ o t ↔ Runs act hidden (.statement x) s κ o t) :
    x.Sound act hidden := by
  intro n G post hfits hnodup hsuffix
  rw [hout]
  exact (Means.single (y n)).congr (hruns n hfits)

section

variable [MulAction (Equiv.Perm Local) S] (hact : act.Blind)
include hact

theorem simple_sound {x : Statement} (hx : x.isSimple) : x.Sound act hidden := by
  refine Statement.sound_of_single (y := fun n => (out (Flatten.statement x) n).headD x) ?_ ?_
  · intro n
    cases x <;> simp [Flatten.statement, Statement.isSimple] at hx ⊢
  · intro n _ s κ o t
    have hsame := hact.same (Action.isAtomic_of_isSimple hx) n
    have hy : ((out (Flatten.statement x) n).headD x).isSimple := by
      cases x <;> simp [Flatten.statement, Statement.isSimple] at hx ⊢
    constructor
    · rintro ⟨k, hrun⟩
      obtain ⟨rfl, rfl, hdone⟩ := hrun.simple_inv hy
      have hlooks : seen (.perform ((out (Flatten.statement x) n).headD x)) = seen (.perform x) :=
        hsame.looks
      rw [hlooks]
      exact ⟨k, .simple hx ((hsame.acts s t).1 hdone)⟩
    · rintro ⟨k, hrun⟩
      obtain ⟨rfl, rfl, hdone⟩ := hrun.simple_inv hx
      rw [← hsame.looks]
      exact ⟨k, .simple hy ((hsame.acts s t).2 hdone)⟩

theorem result_sound (values : List Expression) :
    (Statement.result values).Sound act hidden := by
  refine Statement.sound_of_single (y := fun n => .result (out (Flatten.expressions values) n)) ?_ ?_
  · intro n
    simp [Flatten.statement]
  · intro n _ s κ o t
    have hsame := hact.same (a := .perform (.result values)) rfl n
    have hlowered : (Action.perform (.result values)).lowered n =
        .perform (.result (out (Flatten.expressions values) n)) := by
      rw [Action.lowered_perform]
      simp [Flatten.statement]
    rw [hlowered] at hsame
    constructor
    · rintro ⟨k, hrun⟩
      obtain ⟨rfl, rfl, hdone⟩ := hrun.result_inv
      rw [hsame.looks]
      exact ⟨k, .result ((hsame.acts s t).1 hdone)⟩
    · rintro ⟨k, hrun⟩
      obtain ⟨rfl, rfl, hdone⟩ := hrun.result_inv
      rw [← hsame.looks]
      exact ⟨k, .result ((hsame.acts s t).2 hdone)⟩

theorem same_test (c : Expression) (n : Nat) (truth : Bool) :
    Same act (.test c truth) (.test (out (Flatten.expression c) n) truth) :=
  hact.same (a := .test c truth) rfl n

theorem gotoIf_sound (l : Label) (c : Expression) (wanted : Bool) :
    (Statement.gotoIf l c wanted).Sound act hidden := by
  intro n G post _ _ _
  rw [Flatten.statement]
  refine (Means.gotoIf (same_test hact c n)).congr fun s κ o t => ⟨?_, ?_⟩
  · rintro (⟨rfl, htest, rfl⟩ | ⟨rfl, htest, rfl⟩)
    · exact ⟨0, .gotoIf htest⟩
    · exact ⟨0, .stay htest⟩
  · rintro ⟨k, hrun⟩
    rcases hrun.gotoIf_inv with ⟨rfl, rfl, htest⟩ | ⟨rfl, rfl, htest⟩
    · exact .inl ⟨rfl, htest, rfl⟩
    · exact .inr ⟨rfl, htest, rfl⟩

theorem sameSimple_declare (symbols : List Local) (values : List Expression) (n : Nat) :
    SameSimple act (.declare symbols values)
      (.declare symbols (out (Flatten.expressions values) n)) := by
  refine ⟨rfl, ?_⟩
  have hsame := hact.same (a := .perform (.declare symbols values)) rfl n
  rw [Action.lowered_perform] at hsame
  simpa [Flatten.statement] using hsame

/-- The flat form of a loop is that of its turns, behind what is done once. -/
theorem loop_flat {x : Statement} {loop : Loop} {n : Nat} (hx : x.loop? hidden = some loop)
    (hfits : Fits hidden (Privates.statement n x)) :
    ∃ loop' k, loop.Like act loop' ∧ Fits hidden (Privates.block k loop.body) ∧
      out (Flatten.statement x) n = loop'.setup ++
        .label (.made (n + 1)) :: loop'.code (.made (n + 1)) (out (Flatten.block loop.body) k) := by
  cases x with
  | whileDo c b exit =>
    cases hx
    refine ⟨{ guard := some (out (Flatten.expression c) (n + 1), true), body := [], exit },
      count (Flatten.expression c) (n + 1), ?_, hfits, ?_⟩
    · exact ⟨.nil, .nil, .some ⟨rfl, same_test hact c _⟩, .nil, .nil, .none, rfl⟩
    · simp [Flatten.statement, Loop.code, Loop.before, Loop.behind, Loop.guardCode, Loop.backCode]
  | repeatUntil b c exit =>
    cases hx
    refine ⟨{ stopWhen := some (out (Flatten.expression c) (count (Flatten.block b) (n + 1))),
              body := [], exit }, n + 1, ?_, hfits, ?_⟩
    · exact ⟨.nil, .nil, .none, .nil, .nil, .some (same_test hact c _), rfl⟩
    · simp [Flatten.statement, Loop.code, Loop.before, Loop.behind, Loop.guardCode, Loop.backCode]
  | numericFor counter initial limit step b exit =>
    have hlimit : hidden exit .limit = .made "limit" (n + 2) :=
      hfits (exit, .limit, .made "limit" (n + 2)) (by simp [Privates.statement])
    have hstep : hidden exit .step = .made "step" (n + 3) :=
      hfits (exit, .step, .made "step" (n + 3)) (by simp [Privates.statement])
    simp only [Statement.loop?, hlimit, hstep] at hx
    cases hx
    refine ⟨{ setup := [.declare [counter, .made "limit" (n + 2), .made "step" (n + 3)]
                (out (Flatten.expressions [initial, limit, step]) (n + 3))]
              guard := some (Loop.within counter (.made "limit" (n + 2)) (.made "step" (n + 3)), true)
              body := []
              late := [.assign [.name counter]
                [.binary (.name counter) .add (.name (.made "step" (n + 3)))]]
              exit }, count (Flatten.expressions [initial, limit, step]) (n + 3), ?_, ?_, ?_⟩
    · exact ⟨.cons (sameSimple_declare hact _ _ _) .nil, .nil, .some ⟨rfl, fun _ => .refl _⟩, .nil,
        .cons ⟨rfl, .refl _⟩ .nil, .none, rfl⟩
    · exact fun p hp => hfits p (List.mem_cons_of_mem _ (List.mem_cons_of_mem _ hp))
    · simp [Flatten.statement, Flatten.expressions, Flatten.withinLimit, Loop.within, Loop.code,
        Loop.before, Loop.behind, Loop.guardCode, Loop.backCode]
  | genericFor symbols values b exit =>
    have hiterator : hidden exit .iterator = .made "iterator" (n + 2) :=
      hfits (exit, .iterator, .made "iterator" (n + 2)) (by simp [Privates.statement])
    have hstate : hidden exit .state = .made "state" (n + 3) :=
      hfits (exit, .state, .made "state" (n + 3)) (by simp [Privates.statement])
    have hcontrol : hidden exit .control = .made "control" (n + 4) :=
      hfits (exit, .control, .made "control" (n + 4)) (by simp [Privates.statement])
    have hbody : Fits hidden (Privates.block (count (Flatten.expressions values) (n + 4)) b) :=
      fun p hp => hfits p (List.mem_cons_of_mem _ (List.mem_cons_of_mem _ (List.mem_cons_of_mem _ hp)))
    cases symbols with
    | nil =>
      simp only [Statement.loop?, hiterator, hstate, hcontrol] at hx
      cases hx
      refine ⟨{ setup := [.declare [.made "iterator" (n + 2), .made "state" (n + 3),
                  .made "control" (n + 4)] (out (Flatten.expressions values) (n + 4))]
                start := [.expression (.call (.name (.made "iterator" (n + 2))) none
                  [.name (.made "state" (n + 3)), .name (.made "control" (n + 4))])]
                body := []
                exit }, count (Flatten.expressions values) (n + 4), ?_, hbody, ?_⟩
      · exact ⟨.cons (sameSimple_declare hact _ _ _) .nil, .cons ⟨rfl, .refl _⟩ .nil, .none, .nil,
          .nil, .none, rfl⟩
      · simp [Flatten.statement, Flatten.nextValues, Loop.code, Loop.before, Loop.behind,
          Loop.guardCode, Loop.backCode]
    | cons first later =>
      simp only [Statement.loop?, hiterator, hstate, hcontrol] at hx
      cases hx
      refine ⟨{ setup := [.declare [.made "iterator" (n + 2), .made "state" (n + 3),
                  .made "control" (n + 4)] (out (Flatten.expressions values) (n + 4))]
                start := [.declare (first :: later) [.call (.name (.made "iterator" (n + 2))) none
                  [.name (.made "state" (n + 3)), .name (.made "control" (n + 4))]]]
                guard := some (.binary (.name first) .equal .nil, false)
                early := [.assign [.name (.made "control" (n + 4))] [.name first]]
                body := []
                exit }, count (Flatten.expressions values) (n + 4), ?_, hbody, ?_⟩
      · exact ⟨.cons (sameSimple_declare hact _ _ _) .nil, .cons ⟨rfl, .refl _⟩ .nil,
          .some ⟨rfl, fun _ => .refl _⟩, .cons ⟨rfl, .refl _⟩ .nil, .nil, .none, rfl⟩
      · simp [Flatten.statement, Flatten.nextValues, Loop.code, Loop.before, Loop.behind,
          Loop.guardCode, Loop.backCode]
  | _ => cases hx

theorem loop_sound {x : Statement} {loop : Loop} (hx : x.loop? hidden = some loop)
    (hbody : Block.Sound act hidden loop.body) : x.Sound act hidden := by
  intro n G post hfits hnodup hsuffix
  obtain ⟨loop', k, hlike, hfits, hout⟩ := loop_flat hact hx hfits
  rw [hout] at hsuffix ⊢
  refine Loop.Laid.statement_means ⟨hlike, ?_, ?_, hbody k G _ hfits hnodup ?_⟩ hx
  · refine Block.after_eq (.trans ⟨loop'.setup, ?_⟩ hsuffix) hnodup
    simp
  · refine Block.after_eq (.trans ?_ hsuffix) hnodup
    rw [Loop.code, hlike.exit]
    refine ⟨loop'.setup ++ .label (.made (n + 1)) :: (loop'.before ++
      (out (Flatten.block loop.body) k ++ loop'.behind (.made (n + 1)))), ?_⟩
    simp
  · refine .trans ?_ hsuffix
    rw [Loop.code, hlike.exit]
    exact ⟨loop'.setup ++ .label (.made (n + 1)) :: loop'.before, by simp⟩

/-- Branches mean what they meant, where all of them meet at `stop`. -/
theorem choose_means {es : List Branch} {otherwise : Option (List Statement)} {stop : Label}
    {m : Nat} {G post : List Statement} (hes : ∀ e ∈ es, Block.Sound act hidden e.block)
    (ho : ∀ b ∈ otherwise, Block.Sound act hidden b)
    (hfits : Fits hidden (Privates.branches stop m es ++
      Privates.otherwise (count (Flatten.branches stop es) m) otherwise))
    (hnodup : (Block.heads G).Nodup)
    (hsuffix : out (Flatten.branches stop es) m ++
      (out (Flatten.otherwise otherwise) (count (Flatten.branches stop es) m) ++ [.label stop]) ++
        post <:+ G) :
    Means act hidden G
      (out (Flatten.branches stop es) m ++
        (out (Flatten.otherwise otherwise) (count (Flatten.branches stop es) m) ++ [.label stop]))
      post (Runs act hidden (.choose es otherwise)) := by
  induction es generalizing m with
  | nil =>
    simp only [Flatten.branches, Flatten.out_pure, Flatten.count_pure, List.nil_append,
      Privates.branches] at hfits hsuffix ⊢
    cases otherwise with
    | none =>
      refine (Means.single (.label stop)).congr fun s κ o t => ⟨?_, ?_⟩
      · rintro ⟨k, hrun⟩
        obtain ⟨rfl, rfl, rfl⟩ := hrun.label_inv
        exact ⟨0, .none⟩
      · rintro ⟨k, ⟨⟩⟩
        exact ⟨0, .label⟩
    | some b =>
      have hb := ho b rfl m G ([.label stop] ++ post) hfits hnodup
        (by simpa [Flatten.otherwise] using hsuffix)
      refine (hb.append (Means.single (.label stop))).congr fun s κ o t => ⟨?_, ?_⟩
      · rintro (⟨-, k, hrun⟩ | ⟨κ₁, κ₂, u, rfl, ⟨k, hrun⟩, j, hlabel⟩)
        · exact ⟨k + 1, .otherwise hrun⟩
        · obtain ⟨rfl, rfl, rfl⟩ := hlabel.label_inv
          rw [List.append_nil]
          exact ⟨k + 1, .otherwise hrun⟩
      · rintro ⟨k, hrun⟩
        cases hrun with
        | @otherwise k _ _ _ _ _ hrun =>
          by_cases hfall : o = .fall
          · subst hfall
            exact .inr ⟨κ, [], t, by simp, ⟨k, hrun⟩, 0, .label⟩
          · exact .inl ⟨hfall, k, hrun⟩
  | cons e later ih =>
    obtain ⟨c, b⟩ := e
    rw [List.forall_mem_cons] at hes
    simp only [Flatten.branches, Flatten.out_bind, Flatten.count_bind, Flatten.out_pure,
      Flatten.count_pure, Flatten.out_freshLabel, Flatten.count_freshLabel, Privates.branches,
      List.append_assoc, List.cons_append] at hfits hsuffix ⊢
    rw [fits_append] at hfits
    generalize hbody : out (Flatten.block b) (count (Flatten.expression c) (m + 1)) = body at hsuffix ⊢
    generalize hn : count (Flatten.block b) (count (Flatten.expression c) (m + 1)) = n at hfits hsuffix ⊢
    have hlater : out (Flatten.branches stop later) n ++
        (out (Flatten.otherwise otherwise) (count (Flatten.branches stop later) n) ++
          [.label stop]) ++ post <:+ G := by
      refine .trans ⟨.gotoIf (.made (m + 1)) (out (Flatten.expression c) (m + 1)) false ::
        (body ++ [.goto stop, .label (.made (m + 1))]), ?_⟩ hsuffix
      simp
    refine branch_means (same_test hact c _) ?_ ?_ ?_ (ih hes.2 hfits.2 hlater)
    · refine Block.after_eq (.trans ⟨.gotoIf (.made (m + 1)) (out (Flatten.expression c) (m + 1))
        false :: (body ++ [.goto stop]), ?_⟩ hsuffix) hnodup
      simp
    · refine Block.after_eq (.trans ⟨out (Flatten.branches stop later) n ++
        out (Flatten.otherwise otherwise) (count (Flatten.branches stop later) n), ?_⟩ hlater) hnodup
      simp
    · subst hbody
      refine hes.1 _ G _ hfits.1 hnodup (.trans
        ⟨[.gotoIf (.made (m + 1)) (out (Flatten.expression c) (m + 1)) false], ?_⟩ hsuffix)
      simp

theorem ifThen_sound {c : Expression} {b : List Statement} {es : List Branch}
    {otherwise : Option (List Statement)} (hb : Block.Sound act hidden b)
    (hes : ∀ e ∈ es, Block.Sound act hidden e.block)
    (ho : ∀ b ∈ otherwise, Block.Sound act hidden b) :
    (Statement.ifThen c b es otherwise).Sound act hidden := by
  intro n G post hfits hnodup hsuffix
  rw [Flatten.out_ifThen] at hsuffix ⊢
  rw [Privates.statement, ← Privates.branches] at hfits
  refine (choose_means hact (List.forall_mem_cons.2 ⟨hb, hes⟩) ho hfits hnodup hsuffix).congr
    fun s κ o t => ⟨?_, ?_⟩
  · rintro ⟨k, hrun⟩
    exact ⟨k + 1, .ifThen hrun⟩
  · rintro ⟨k, hrun⟩
    cases hrun with
    | ifThen hrun => exact ⟨_, hrun⟩
    | simple hx => cases hx
    | loop hx => cases hx

end

/-! ## Lists that jumps leave -/

/-- The places `visible` around something and those in it are different symbols, and none of them
is made up. -/
structure Fine (visible inner : List Label) : Prop where
  once : ∀ id, occurrences id visible + occurrences id inner ≤ 1
  bound : ∀ k, occurrences (.generated k) visible + occurrences (.generated k) inner = 0

namespace Fine

variable {v v' ms ms' : List Label}

theorem mono (h : Fine v ms)
    (hle : ∀ id, occurrences id v' + occurrences id ms' ≤ occurrences id v + occurrences id ms) :
    Fine v' ms' where
  once id := (hle id).trans (h.once id)
  bound k := Nat.le_zero.1 ((hle _).trans (h.bound k).le)

end Fine

section

variable {b : List Statement} {n : Nat} {visible : List Label}

theorem occurrences_pos {l : Label} {ls : List Label} (h : l ∈ ls) : 0 < occurrences l.id ls :=
  List.countP_pos_iff.2 ⟨l, h, by simp⟩

theorem Fine.nodup_heads (h : Fine visible (marksOf (Block.marks b) (Bodies.block b))) :
    (Block.heads (out (Flatten.block b) n)).Nodup := by
  refine List.Nodup.of_map Label.id (List.nodup_iff_count_le_one.2 fun id => ?_)
  have hkept : Kept n _ (Block.marks b) (Bodies.block b) (Block.labels (out (Flatten.block b) n)) _ :=
    (Flatten.block_kept b n).1
  have hheads : occurrences id (Block.heads (out (Flatten.block b) n)) ≤
      occurrences id (marksOf (Block.marks b) (Bodies.block b)) + madeBetween n _ id :=
    ((Block.heads_sublist_labels _).trans (List.sublist_append_left ..)).countP_le.trans
      (hkept.count id)
  have hone : occurrences id (Block.heads (out (Flatten.block b) n)) ≤ 1 := by
    cases id with
    | declared unit k =>
      have := h.once (.declared unit k)
      simp only [madeBetween] at hheads
      omega
    | generated k =>
      have := h.bound k
      have := between_le_one (n + 1) (((Flatten.block b).run n).2 + 1) k
      simp only [madeBetween] at hheads
      omega
  rw [List.count_eq_countP, List.countP_map]
  exact hone

/-- No jump out of a block is to a label of its flat form. -/
theorem Fine.notMem_heads (h : Fine visible (marksOf (Block.marks b) (Bodies.block b)))
    {l : Label} (hl : l ∈ visible) : l ∉ Block.heads (out (Flatten.block b) n) := by
  intro hmem
  have hkept : Kept n _ (Block.marks b) (Bodies.block b) (Block.labels (out (Flatten.block b) n)) _ :=
    (Flatten.block_kept b n).1
  have hpos := occurrences_pos hl
  rcases hkept.origin l (List.mem_append_left _ (Block.heads_subset_labels _ hmem)) with hmark | ⟨k, rfl⟩
  · have := occurrences_pos hmark
    have := h.once l.id
    omega
  · have := h.bound k
    simp only [Label.made] at hpos
    omega

/-- A block and its flat form can run in the same ways. -/
theorem Block.Sound.runs_iff (hsound : Block.Sound act hidden b)
    (hfits : Fits hidden (Privates.block n b)) (hscoped : Scoped.block visible b)
    (hfine : Fine visible (marksOf (Block.marks b) (Bodies.block b))) {s t : S} {κ : List Seen}
    {o : Outcome} :
    Runs act hidden (.list (out (Flatten.block b) n) (out (Flatten.block b) n)) s κ o t ↔
      Runs act hidden (.list b b) s κ o t := by
  have hmeans := hsound n (out (Flatten.block b) n) [] hfits hfine.nodup_heads (by simp)
  constructor
  · rintro ⟨k, hrun⟩
    obtain ⟨m, κ₁, κ₂, o₁, u, -, rfl, ⟨j, hj⟩, hresume⟩ := hmeans.split (by simpa using hrun)
    cases hresume with
    | next hlist =>
      cases hlist with
      | nil => exact ⟨j, by simpa using hj⟩
    | caught hl =>
      exact absurd hl (hfine.notMem_heads (hj.jump_mem ⟨hscoped, hscoped⟩ _ rfl))
    | passed => exact ⟨j, by simpa using hj⟩
    | returned => exact ⟨j, by simpa using hj⟩
  · intro hruns
    have hend : Runs act hidden (.resume (out (Flatten.block b) n) [] o) t [] o t := by
      cases o with
      | fall => exact ⟨0, .next .nil⟩
      | returned => exact ⟨0, .returned⟩
      | jump l =>
        obtain ⟨k, hrun⟩ := hruns
        exact ⟨0, .passed (hfine.notMem_heads (hrun.jump_mem ⟨hscoped, hscoped⟩ l rfl))⟩
    simpa using hmeans.join hruns hend

theorem doBlock_sound (hsound : Block.Sound act hidden b) (hscoped : Scoped.block visible b)
    (hfine : Fine visible (marksOf (Block.marks b) (Bodies.block b))) :
    (Statement.doBlock b).Sound act hidden := by
  refine Statement.sound_of_single (y := fun n => .doBlock (out (Flatten.block b) n)) ?_ ?_
  · intro n
    simp [Flatten.statement]
  · intro n hfits s κ o t
    have hiff := hsound.runs_iff hfits hscoped hfine (s := s) (t := t) (κ := κ) (o := o)
    constructor
    · rintro ⟨k, hrun⟩
      obtain ⟨m, hm⟩ := hiff.1 hrun.doBlock_inv
      exact ⟨m + 1, .doBlock hm⟩
    · rintro ⟨k, hrun⟩
      obtain ⟨m, hm⟩ := hiff.2 hrun.doBlock_inv
      exact ⟨m + 1, .doBlock hm⟩

end

/-! ## Programs -/

/-- What is fine for a list is fine for its statements, which see the labels of the list. -/
theorem Fine.statement {b : List Statement} {visible : List Label}
    (h : Fine visible (marksOf (Block.marks b) (Bodies.block b))) {x : Statement} (hx : x ∈ b)
    (hlabels : x.labels = []) :
    Fine (Block.heads b ++ visible) (marksOf (Block.marks [x]) (Bodies.statement x)) := by
  obtain ⟨a, later, rfl⟩ := List.append_of_mem hx
  refine h.mono fun id => ?_
  have ha : occurrences id (Block.heads a) ≤ occurrences id (Block.marks a) :=
    (Block.heads_sublist_marks a).countP_le
  have hlater : occurrences id (Block.heads later) ≤ occurrences id (Block.marks later) :=
    (Block.heads_sublist_marks later).countP_le
  simp only [marksOf, Block.heads_append, Block.heads_cons, hlabels, Block.marks_append,
    Block.marks_cons, Block.marks_nil, Bodies.block_append, Bodies.block, List.flatMap_append,
    occurrences_append, occurrences_nil] at ha hlater ⊢
  omega

section

variable [MulAction (Equiv.Perm Local) S]

mutual

theorem statement_sound (hact : act.Blind) (x : Statement) (visible : List Label)
    (hscoped : Scoped.statement visible x)
    (hfine : x.labels = [] → Fine visible (marksOf (Block.marks [x]) (Bodies.statement x))) :
    x.Sound act hidden := by
  cases x with
  | expression e => exact simple_sound hact rfl
  | assign targets values => exact simple_sound hact rfl
  | declare symbols values => exact simple_sound hact rfl
  | result values => exact result_sound hact values
  | gotoIf l c wanted => exact gotoIf_sound hact l c wanted
  | goto l => exact Statement.sound_of_single (fun n => rfl) fun n _ s κ o t => Iff.rfl
  | label l => exact Statement.sound_of_single (fun n => rfl) fun n _ s κ o t => Iff.rfl
  | doBlock b =>
    have hb : Fine visible (marksOf (Block.marks b) (Bodies.block b)) :=
      (hfine rfl).mono fun id => by simp [marksOf, Block.marks, Statement.marks]
    exact doBlock_sound (Block.sound_of_statements
      (list_sound hact b _ hscoped fun x hx => hb.statement hx)) hscoped hb
  | ifThen c b es otherwise =>
    have hb : Fine visible (marksOf (Block.marks b) (Bodies.block b)) :=
      (hfine rfl).mono fun id => by simp [marksOf, Block.marks, Statement.marks]; omega
    have hes : Fine visible (marksOf ((Spine.branches es).flatMap Statement.marks)
        (Bodies.branches es)) :=
      (hfine rfl).mono fun id => by simp [marksOf, Block.marks, Statement.marks]; omega
    refine ifThen_sound hact (Block.sound_of_statements
      (list_sound hact b _ hscoped.1 fun x hx => hb.statement hx))
      (branches_sound hact es visible hscoped.2.1 hes) ?_
    cases otherwise with
    | none => simp
    | some o =>
      have ho : Fine visible (marksOf (Block.marks o) (Bodies.block o)) :=
        (hfine rfl).mono fun id => by simp [marksOf, Block.marks, Statement.marks]; omega
      rintro _ ⟨⟩
      exact Block.sound_of_statements
        (list_sound hact o _ hscoped.2.2 fun x hx => ho.statement hx)
  | whileDo c b exit =>
    have hb : Fine (exit :: visible) (marksOf (Block.marks b) (Bodies.block b)) :=
      (hfine rfl).mono fun id => by simp [marksOf, Block.marks, Statement.marks, occurrences_cons]; omega
    exact loop_sound hact rfl (Block.sound_of_statements
      (list_sound hact b _ hscoped fun x hx => hb.statement hx))
  | repeatUntil b c exit =>
    have hb : Fine (exit :: visible) (marksOf (Block.marks b) (Bodies.block b)) :=
      (hfine rfl).mono fun id => by simp [marksOf, Block.marks, Statement.marks, occurrences_cons]; omega
    exact loop_sound hact rfl (Block.sound_of_statements
      (list_sound hact b _ hscoped fun x hx => hb.statement hx))
  | numericFor counter initial limit step b exit =>
    have hb : Fine (exit :: visible) (marksOf (Block.marks b) (Bodies.block b)) :=
      (hfine rfl).mono fun id => by simp [marksOf, Block.marks, Statement.marks, occurrences_cons]; omega
    exact loop_sound hact rfl (Block.sound_of_statements
      (list_sound hact b _ hscoped fun x hx => hb.statement hx))
  | genericFor symbols values b exit =>
    have hb : Fine (exit :: visible) (marksOf (Block.marks b) (Bodies.block b)) :=
      (hfine rfl).mono fun id => by simp [marksOf, Block.marks, Statement.marks, occurrences_cons]; omega
    have hbody : Block.Sound act hidden b := Block.sound_of_statements
      (list_sound hact b _ hscoped fun x hx => hb.statement hx)
    cases symbols with
    | nil => exact loop_sound hact rfl hbody
    | cons first later => exact loop_sound hact rfl hbody

theorem list_sound (hact : act.Blind) (b : List Statement) (visible : List Label)
    (hscoped : Scoped.list visible b)
    (hfine : ∀ x ∈ b, x.labels = [] →
      Fine visible (marksOf (Block.marks [x]) (Bodies.statement x))) :
    ∀ x ∈ b, x.Sound act hidden := by
  cases b with
  | nil => simp
  | cons x later =>
    rw [List.forall_mem_cons] at hfine ⊢
    exact ⟨statement_sound hact x visible hscoped.1 hfine.1,
      list_sound hact later visible hscoped.2 hfine.2⟩

theorem branches_sound (hact : act.Blind) (es : List Branch) (visible : List Label)
    (hscoped : Scoped.branches visible es)
    (hfine : Fine visible (marksOf ((Spine.branches es).flatMap Statement.marks)
      (Bodies.branches es))) :
    ∀ e ∈ es, Block.Sound act hidden e.block := by
  cases es with
  | nil => simp
  | cons e later =>
    obtain ⟨c, b⟩ := e
    have hb : Fine visible (marksOf (Block.marks b) (Bodies.block b)) :=
      hfine.mono fun id => by simp [marksOf, Block.marks]; omega
    have hlater : Fine visible (marksOf ((Spine.branches later).flatMap Statement.marks)
        (Bodies.branches later)) :=
      hfine.mono fun id => by simp [marksOf]; omega
    rw [List.forall_mem_cons]
    exact ⟨Block.sound_of_statements (list_sound hact b _ hscoped.1 fun x hx => hb.statement hx),
      branches_sound hact later visible hscoped.2 hlater⟩

end
end
end Resolved
end LuaFront
