import LuaFront.Proofs.Syntax.Blame
import LuaFront.Proofs.Token.RoundTrip

/-!
# LuaFront.Proofs.Syntax.Completion

Whatever is consumed before the first diagnostic can be completed.

* `Grammar.Begins opens tight G c`: the tokens `c` begin a phrase of `G`; items can be written
  behind them that make it whole. A parenthesis, a string or a brace would continue a prefix
  expression. The flags say where that matters: one of them may come first in what is written
  (`opens`), or may not follow (`tight`).
* `Reading.Tracks opens tight G r r'`: from `r` to `r'` a phrase of `G` was consumed, or what was
  consumed before the first diagnostic begins one. `Tracks.comp` puts one phrase behind another.

Readers are followed one by one, as in `Proofs.Syntax.Expression`. What matters is only that there
is a phrase, not its tree, which is why phrases are taken together in `Grammar.Any`.
-/

namespace LuaFront
namespace Syntax

open Relation (Comp ReflTransGen)

namespace Grammar

variable {G H : List Token → List Token → Prop} {opens opens' tight tight' : Bool}
  {c i o : List Token}

/-- A phrase of a sort, whatever its tree. -/
def Any {α : Type} (p : α → Phrase) (i o : List Token) : Prop := ∃ a, Derives (p a) i o

/-- An identifier, whichever it is. -/
def AnyWord (i o : List Token) : Prop := ∃ n, Word n i o

def Begins (opens tight : Bool) (G : List Token → List Token → Prop) (c : List Token) : Prop :=
  ∃ xs : List Item, ∀ w o : List Token, w.map Token.kind = xs.map Item.kind →
    (tight = true → Closed o) →
    G (c ++ (w ++ o)) o ∧ (opens = false → c = [] → Closed (w ++ o))

theorem closed_cons {t : Token} : Closed (t :: o) ↔ opensArguments t.kind = false := by
  simp [Closed]

/-- Only the first token matters. -/
theorem closed_append {o' : List Token} (hne : c ≠ []) (h : Closed (c ++ o)) :
    Closed (c ++ o') := by
  cases c with
  | nil => exact absurd rfl hne
  | cons t c => exact closed_cons.2 (closed_cons.1 h)

namespace Begins

theorem imp (h : Begins opens tight G c) (himp : ∀ i o, G i o → H i o) :
    Begins opens tight H c := by
  obtain ⟨xs, hxs⟩ := h
  exact ⟨xs, fun w o hw ho => ⟨himp _ _ (hxs w o hw ho).1, (hxs w o hw ho).2⟩⟩

theorem loosen (h : Begins opens tight G c) (hopens : opens ≤ opens') (htight : tight ≤ tight') :
    Begins opens' tight' G c := by
  obtain ⟨xs, hxs⟩ := h
  refine ⟨xs, fun w o hw ho => ?_⟩
  have := hxs w o hw fun ht => ho (htight ht)
  refine ⟨this.1, fun hop => this.2 ?_⟩
  cases opens with
  | false => rfl
  | true => exact absurd (hopens rfl) (by simp [hop])

/-- Another phrase is written behind the first. -/
theorem comp (h : Begins opens tight G c) (h' : Begins opens' tight' H [])
    (hfit : (tight && opens') = false) : Begins opens tight' (Comp G H) c := by
  obtain ⟨xs, hxs⟩ := h
  obtain ⟨ys, hys⟩ := h'
  refine ⟨xs ++ ys, fun w o hw ho => ?_⟩
  obtain ⟨u, v, rfl, hu, hv⟩ := List.map_eq_append_iff.1 (hw.trans List.map_append)
  obtain ⟨hH, hclosed⟩ := hys v o hv ho
  obtain ⟨hG, hopens⟩ := hxs u (v ++ o) hu fun ht => by
    rw [ht, Bool.true_and] at hfit
    exact hclosed hfit rfl
  rw [List.append_assoc]
  exact ⟨⟨v ++ o, hG, hH⟩, hopens⟩

/-- What is closed by what follows it. -/
theorem close (h : Begins opens false G c) :
    Begins opens true (fun i o => G i o ∧ Closed o) c := by
  obtain ⟨xs, hxs⟩ := h
  refine ⟨xs, fun w o hw ho => ?_⟩
  obtain ⟨hG, hopens⟩ := hxs w o hw (by simp)
  exact ⟨⟨hG, ho rfl⟩, hopens⟩

/-- Nothing need be written. -/
theorem nil (h : (opens || tight) = true) : Begins opens tight Eq [] := by
  refine ⟨[], fun w o hw ho => ?_⟩
  obtain rfl : w = [] := List.map_eq_nil_iff.1 hw
  refine ⟨rfl, fun hop _ => ho ?_⟩
  simpa [hop] using h

theorem terminal {k : Kind} {x : Item} (hx : x.kind = k) :
    Begins (opensArguments k) false (Terminal k) [] := by
  refine ⟨[x], fun w o hw _ => ?_⟩
  obtain ⟨t, w, rfl, ht, hw⟩ := List.map_eq_cons_iff.1 hw
  obtain rfl : w = [] := List.map_eq_nil_iff.1 hw
  rw [hx] at ht
  refine ⟨.mk ht, fun hop _ => ?_⟩
  rw [List.singleton_append, closed_cons, ht]
  exact hop

end Begins

/-- A name to write where any would do. -/
def someName : Item :=
  .name ['x'] ⟨⟨'x', [], rfl, by decide⟩, by simp [Scanner.isNameChar, Scanner.isNameStart]⟩
    fun k => by cases k <;> decide

theorem begins_word : Begins false false AnyWord [] :=
  (Begins.terminal (x := someName) rfl).imp fun i o h => by
    cases h with
    | mk hk => exact ⟨_, .mk hk⟩

end Grammar

/-! ## Readers that track the grammar -/

open Grammar

namespace Reading

variable {G H : List Token → List Token → Prop} {opens opens' tight tight' : Bool}
  {r r₁ r₂ r' : Reading}

/-- A phrase of `G` was consumed, before whatever may follow it; or the first diagnostic came before
its end, and what was consumed by then begins such a phrase. -/
inductive Tracked (opens tight : Bool) (G : List Token → List Token → Prop) (r r' : Reading) :
    Prop where
  | took {c : List Token} : r.Takes r' → r.tokens = c ++ r'.tokens →
      (∀ o, (tight = true → Closed r'.tokens → Closed o) → G (c ++ o) o) →
      (opens = false → c = [] → tight = true) → Tracked opens tight G r r'
  | blamed {s : Reading} {d : Diagnostic} {c : List Token} : r.Takes s → (s.reported d).Acts r' →
      r.tokens = c ++ s.tokens → Begins opens tight G c → Tracked opens tight G r r'

structure Tracks (opens tight : Bool) (G : List Token → List Token → Prop) (r r' : Reading) :
    Prop where
  acts : r.Acts r'
  least : Begins opens tight G []
  tracked : r.Ready → Tracked opens tight G r r'

namespace Tracks

theorem imp (h : Tracks opens tight G r r') (himp : ∀ i o, G i o → H i o) :
    Tracks opens tight H r r' where
  acts := h.acts
  least := h.least.imp himp
  tracked hr := by
    cases h.tracked hr with
    | took htakes htokens hG hempty =>
      exact .took htakes htokens (fun o ho => himp _ _ (hG o ho)) hempty
    | blamed htakes hacts htokens hbegins => exact .blamed htakes hacts htokens (hbegins.imp himp)

theorem loosen (h : Tracks opens tight G r r') (hopens : opens ≤ opens') (htight : tight ≤ tight') :
    Tracks opens' tight' G r r' where
  acts := h.acts
  least := h.least.loosen hopens htight
  tracked hr := by
    cases h.tracked hr with
    | took htakes htokens hG hempty =>
      refine .took htakes htokens (fun o ho => hG o fun ht => ho (htight ht)) fun hop hc => ?_
      cases opens with
      | false => exact htight (hempty rfl hc)
      | true => exact absurd (hopens rfl) (by simp [hop])
    | blamed htakes hacts htokens hbegins =>
      exact .blamed htakes hacts htokens (hbegins.loosen hopens htight)

/-- One phrase behind another. Nothing that continues a prefix expression is put behind one. -/
theorem comp (h : Tracks opens tight G r r₁) (h' : Tracks opens' tight' H r₁ r₂)
    (hfit : (tight && opens') = false) : Tracks opens tight' (Comp G H) r r₂ where
  acts := h.acts.trans h'.acts
  least := h.least.comp h'.least hfit
  tracked hr := by
    have hplain (ht : tight = true) : opens' = false := by simpa [ht] using hfit
    cases h.tracked hr with
    | blamed htakes hacts htokens hbegins =>
      exact .blamed htakes (hacts.trans h'.acts) htokens (hbegins.comp h'.least hfit)
    | @took c htakes htokens hG hempty =>
      cases h'.tracked (htakes.ready hr) with
      | @took c' htakes' htokens' hH hempty' =>
        refine .took (htakes.trans htakes') (by rw [htokens, htokens', List.append_assoc])
          (fun o ho => ?_) fun hop hcc => ?_
        · rw [List.append_assoc]
          refine ⟨c' ++ o, hG _ fun ht hclosed => ?_, hH o ho⟩
          by_cases hc : c' = []
          · subst hc
            exact ho (hempty' (hplain ht) rfl) (by rwa [htokens'] at hclosed)
          · exact closed_append hc (htokens' ▸ hclosed)
        · obtain ⟨hc, hc'⟩ := List.append_eq_nil_iff.1 hcc
          exact hempty' (hplain (hempty hop hc)) hc'
      | @blamed s d c' htakes' hacts htokens' hbegins =>
        obtain ⟨xs, hxs⟩ := hbegins
        refine .blamed (htakes.trans htakes') hacts (by rw [htokens, htokens', List.append_assoc])
          ⟨xs, fun w o hw ho => ?_⟩
        obtain ⟨hH, hopens⟩ := hxs w o hw ho
        rw [List.append_assoc]
        refine ⟨⟨c' ++ (w ++ o), hG _ fun ht hclosed => ?_, hH⟩, fun hop hcc => ?_⟩
        · by_cases hc : c' = []
          · subst hc
            exact hopens (hplain ht) rfl
          · exact closed_append hc (htokens' ▸ hclosed)
        · obtain ⟨hc, hc'⟩ := List.append_eq_nil_iff.1 hcc
          exact hopens (hplain (hempty hop hc)) hc'

/-- Where a prefix expression ends, nothing stands that would continue it. -/
theorem close (h : Tracks opens false G r r') (hk : opensArguments r'.current.kind = false) :
    Tracks opens true (fun i o => G i o ∧ Closed o) r r' where
  acts := h.acts
  least := h.least.close
  tracked hr := by
    cases h.tracked hr with
    | took htakes htokens hG hempty =>
      refine .took htakes htokens (fun o ho => ⟨hG o (by simp), ?_⟩) fun _ _ => rfl
      exact ho rfl (closed_cons.2 hk)
    | blamed htakes hacts htokens hbegins => exact .blamed htakes hacts htokens hbegins.close

/-- Nothing was done. -/
theorem refl (h : (opens || tight) = true) (r : Reading) : Tracks opens tight Eq r r where
  acts := .refl r
  least := .nil h
  tracked _ := by
    refine .took (c := []) .refl rfl (fun o _ => rfl) fun hop _ => ?_
    simpa [hop] using h

/-- The steps of a loop, one phrase after another. -/
theorem snoc (h : Tracks opens tight (ReflTransGen G) r r₁) (h' : Tracks false tight G r₁ r₂) :
    Tracks opens tight (ReflTransGen G) r r₂ :=
  (h.comp h' (Bool.and_false tight)).imp fun _ _ ⟨_, hmany, hone⟩ => hmany.tail hone

/-- What only a reading without diagnostics need be asked for. -/
theorem of_ready (hacts : r.Acts r') (hleast : Begins opens tight G [])
    (h : r.Ready → Tracks opens tight G r r') : Tracks opens tight G r r' :=
  ⟨hacts, hleast, fun hr => (h hr).tracked hr⟩

end Tracks

/-- A token was consumed, and then what makes a phrase with it. -/
theorem Tracks.behind (h : Tracks opens' tight H r.taken r₂) (hk : r.current.kind ≠ .endOfFile)
    (hleast : Begins opens tight G []) (hG : ∀ i o, H i o → G (r.current :: i) o) :
    Tracks opens tight G r r₂ where
  acts := .trans (.single (.took r)) h.acts
  least := hleast
  tracked hr := by
    have htokens := hr.sound.tokens_eq hk
    have hfirst : r.Takes r.taken := .took .refl hk
    cases h.tracked (hr.taken hk) with
    | @took c htakes hrest hH hempty =>
      refine .took (c := r.current :: c) (hfirst.trans htakes) ?_ (fun o ho => hG _ _ (hH o ho))
        (by simp)
      rw [htokens, hrest, List.cons_append]
    | @blamed s d c htakes hacts hrest hbegins =>
      obtain ⟨xs, hxs⟩ := hbegins
      refine .blamed (c := r.current :: c) (hfirst.trans htakes) hacts ?_
        ⟨xs, fun w o hw ho => ⟨hG _ _ (hxs w o hw ho).1, by simp⟩⟩
      rw [htokens, hrest, List.cons_append]

/-- A token was consumed that is a phrase by itself. -/
theorem tracks_taken (hk : r.current.kind ≠ .endOfFile) (hleast : Begins opens tight G [])
    (hG : ∀ o, G (r.current :: o) o) : Tracks opens tight G r r.taken :=
  (Tracks.refl (Bool.true_or tight) r.taken).behind hk hleast fun i _ hio => hio ▸ hG i

end Reading

namespace Read

open Reading (Tracks Tracked tracks_taken)

variable {α : Type} {G H : List Token → List Token → Prop} {opens tight : Bool} {r : Reading}

theorem Item.kind_ne_endOfFile (x : Item) : x.kind ≠ .endOfFile := by
  cases x <;> simp [Item.kind]

theorem terminal_tracks {k : Kind} (hk : r.current.kind = k) (x : Item) (hx : x.kind = k) :
    r.Tracks (opensArguments k) false (Terminal k) r.taken := by
  have hne : r.current.kind ≠ .endOfFile := by
    rw [hk, ← hx]
    exact Item.kind_ne_endOfFile x
  exact tracks_taken hne (.terminal hx) fun o => .mk hk

/-- Where a diagnostic comes first, the whole phrase is still to be written. -/
theorem report_tracks (at_ : Text.Span) (cause : Cause) (r : Reading) :
    Ensures (report at_ cause) r fun _ r₁ => ∀ {opens tight : Bool}
      {G : List Token → List Token → Prop} {r' : Reading}, Begins opens tight G [] → r₁.Acts r' →
      r.Tracks opens tight G r' := by
  intro _ r₁ hrun opens tight G r' hleast hacts
  refine ⟨(Acting.acts hrun).trans hacts, hleast, fun hr => ?_⟩
  rw [run_report_of_silent hr.silent] at hrun
  cases hrun
  exact .blamed (c := []) .refl hacts rfl hleast

theorem expect_tracks (x : Item) (r : Reading) :
    Ensures (expect x.kind) r fun _ r' =>
      r.Tracks (opensArguments x.kind) false (Terminal x.kind) r' := by
  unfold expect
  simp only [ensures_bind, ensures_kind, ensures_ite]
  split
  next hk =>
    rw [ensures_take]
    exact terminal_tracks hk x rfl
  next =>
    rw [ensures_span]
    refine (report_tracks _ _ r).imp fun _ r₁ h₁ => ?_
    rw [ensures_supply]
    exact h₁ (.terminal rfl) (.single (.supplied r₁ x.kind))

theorem name_tracks (r : Reading) :
    Ensures name r fun _ r' => r.Tracks false false AnyWord r' := by
  unfold name
  simp only [ensures_bind, ensures_pure]
  refine (expect_tracks someName r).imp fun _ r' h => h.imp fun i o hio => ?_
  cases hio with
  | mk hk => exact ⟨_, .mk hk⟩

/-! ## Lists -/

theorem following_tracks {item : Read α} {σ : Sign} (hσ : opensArguments (.sign σ) = false)
    (hitem : ∀ r, Ensures item r fun _ r' => r.Tracks opens tight G r') (r : Reading) :
    Ensures (following (.sign σ) item) r fun _ r' =>
      r.Tracks (!tight) tight (ReflTransGen (Comp (Terminal (.sign σ)) G)) r' := by
  refine Ensures.loop (fun _ r' => r.Tracks (!tight) tight
    (ReflTransGen (Comp (Terminal (.sign σ)) G)) r') ?_ fun items r₁ h₁ => ?_
  · exact (Tracks.refl (by simp) r).imp fun i o hio => hio ▸ .refl
  simp only [ensures_bind, ensures_takeIf]
  split
  next hk =>
    simp only [if_true, ensures_bind, ensures_pure]
    have hsep := terminal_tracks hk (.sign σ) rfl
    rw [hσ] at hsep
    exact (hitem r₁.taken).imp fun _ r₂ h₂ => h₁.snoc (hsep.comp h₂ rfl)
  next => simpa using h₁

theorem separated_tracks {item : Read α} {σ : Sign} (hσ : opensArguments (.sign σ) = false)
    (hitem : ∀ r, Ensures item r fun _ r' => r.Tracks opens tight G r') (r : Reading) :
    Ensures (separated (.sign σ) item) r fun _ r' =>
      r.Tracks opens tight (Comp G (ReflTransGen (Comp (Terminal (.sign σ)) G))) r' := by
  unfold separated
  simp only [ensures_bind, ensures_pure]
  refine (hitem r).imp fun _ r₁ h₁ => ?_
  exact (following_tracks hσ hitem r₁).imp fun _ r₂ h₂ => h₁.comp h₂ (by simp)

end Read

/-! ## Expressions -/

namespace Grammar

theorem begins_expression : Begins false true (Any .expression) [] :=
  begins_word.close.imp fun _ _ ⟨⟨_, hn⟩, ho⟩ => ⟨_, .prefixed (.name hn) ho⟩

/-- Phrases behind separators, with the trees that they have. -/
theorem exists_following {α : Type} {G : α → List Token → List Token → Prop} {separator : Kind}
    {i o : List Token}
    (h : ReflTransGen (Comp (Terminal separator) fun i o => ∃ a, G a i o) i o) :
    ∃ as, Following separator G as i o := by
  induction h using ReflTransGen.head_induction_on with
  | refl => exact ⟨[], .nil⟩
  | head hone _ ih =>
    obtain ⟨m, hseparator, a, ha⟩ := hone
    obtain ⟨as, has⟩ := ih
    exact ⟨a :: as, .cons ⟨m, hseparator, ha⟩ has⟩

end Grammar

/-- Readers for nested constructs track the grammar. -/
structure Nested.Tracks (inner : Nested) : Prop where
  operand : ∀ (parent : Nat) (r : Reading), Read.Ensures (inner.operand parent) r fun _ r' =>
    r.Tracks false true (Any .expression) r'
  block : ∀ r : Reading, Read.Ensures inner.block r fun _ r' =>
    r.Tracks false true (Any .block) r'

namespace Read

open Reading (Tracks tracks_taken)

variable {inner : Nested} {r : Reading}

theorem expression_tracks (hin : inner.Tracks) (r : Reading) :
    Ensures inner.expression r fun _ r' => r.Tracks false true (Any .expression) r' :=
  hin.operand 0 r

theorem expressions_tracks (hin : inner.Tracks) (r : Reading) :
    Ensures inner.expressions r fun _ r' => r.Tracks false true (Any .expressions) r' := by
  refine (separated_tracks rfl (expression_tracks hin) r).imp fun _ r' h => h.imp ?_
  rintro i o ⟨m, ⟨e, he⟩, hmore⟩
  obtain ⟨es, hes⟩ := exists_following (G := fun e => Derives (.expression e)) hmore
  exact ⟨_, .expressions he hes.expressions⟩

/-- Names that a comma follows each come before other parameters. -/
theorem many_parameters {i m o : List Token}
    (h : ReflTransGen (Comp AnyWord (Terminal (.sign .comma))) i m) {ns : List Name} {vararg : Bool}
    (hlast : Parameters ns vararg m o) : ∃ ns, Parameters ns vararg i o := by
  induction h using ReflTransGen.head_induction_on with
  | refl => exact ⟨_, hlast⟩
  | head hone _ ih =>
    obtain ⟨m', ⟨n, hn⟩, hcomma⟩ := hone
    obtain ⟨ns, hns⟩ := ih
    exact ⟨_, .more hn hcomma hns⟩

theorem parameters_tracks (r : Reading) :
    Ensures parameters r fun _ r' =>
      r.Tracks true false (fun i o => i = o ∨ ∃ ns vararg, Parameters ns vararg i o) r' := by
  unfold parameters
  simp only [ensures_bind, ensures_kind, ensures_ite, ensures_pure]
  split
  · exact (Tracks.refl rfl r).imp fun _ _ => .inl
  refine Ensures.loop (fun _ r' =>
    r.Tracks true false (ReflTransGen (Comp AnyWord (Terminal (.sign .comma)))) r')
    ((Tracks.refl rfl r).imp fun i o hio => hio ▸ .refl) fun names r₁ h₁ => ?_
  simp only [ensures_bind, ensures_takeIf]
  split
  next hk =>
    simp only [if_true, ensures_pure]
    refine (h₁.comp (terminal_tracks hk (.sign .dotDotDot) rfl) rfl).imp ?_
    rintro i o ⟨m, hnames, hdots⟩
    obtain ⟨ns, hns⟩ := many_parameters hnames (.dots hdots)
    exact .inr ⟨ns, true, hns⟩
  next =>
    simp only [Bool.false_eq_true, if_false, ensures_bind]
    refine (name_tracks r₁).imp fun _ r₂ h₂ => ?_
    rw [ensures_takeIf]
    split
    next hk =>
      simp only [if_true, ensures_pure]
      exact h₁.snoc (h₂.comp (terminal_tracks hk (.sign .comma) rfl) rfl)
    next =>
      simp only [Bool.false_eq_true, if_false, ensures_pure]
      refine (h₁.comp h₂ rfl).imp ?_
      rintro i o ⟨m, hnames, n, hn⟩
      obtain ⟨ns, hns⟩ := many_parameters hnames (.last hn)
      exact .inr ⟨ns, false, hns⟩

theorem functionBody_tracks (hin : inner.Tracks) (r : Reading) :
    Ensures (functionBody inner) r fun _ r' => r.Tracks true false (Any .functionBody) r' := by
  unfold functionBody
  simp only [ensures_bind, ensures_start, ensures_spanFrom, ensures_pure]
  refine (expect_tracks (.sign .openParenthesis) r).imp fun _ r₁ h₁ => ?_
  refine (parameters_tracks r₁).imp fun _ r₂ h₂ => ?_
  refine (expect_tracks (.sign .closeParenthesis) r₂).imp fun _ r₃ h₃ => ?_
  refine (hin.block r₃).imp fun _ r₄ h₄ => ?_
  refine (expect_tracks (.keyword .«end») r₄).imp fun _ r₅ h₅ => ?_
  refine (h₁.comp (h₂.comp (h₃.comp (h₄.comp h₅ rfl) rfl) rfl) rfl).imp ?_
  rintro i o ⟨_, hopen, _, hparameters, _, hclose, _, ⟨b, hblock⟩, hend⟩
  rcases hparameters with rfl | ⟨ns, vararg, hparameters⟩
  · exact ⟨⟨[], false, b, .empty 0⟩, .niladic hopen hclose hblock hend⟩
  · exact ⟨⟨ns, vararg, b, .empty 0⟩, .parametric hopen hparameters hclose hblock hend⟩

theorem literal_tracks (hk : isLiteral r.current.kind = true) :
    Ensures literal r fun _ r' => r.Tracks false true (Any .expression) r' := by
  unfold literal
  simp only [ensures_bind, ensures_take, ensures_pure]
  have hne : r.current.kind ≠ .endOfFile := by
    intro he
    rw [he] at hk
    cases hk
  exact tracks_taken hne begins_expression fun o => ⟨_, .literal hk⟩

/-! ### Tables -/

theorem begins_field : Begins false true (Any .field) [] :=
  begins_expression.imp fun _ _ ⟨e, he⟩ => ⟨.positional e (.empty 0), .positional he⟩

/-- A field whose first token was looked at. -/
theorem fieldRest_tracks (hin : inner.Tracks) {st : Nat} {named : Bool}
    (hnamed : named = true → r.current.kind = .name ∧ r.taken.current.kind = .sign .equals) :
    Ensures (fieldRest inner st named) r fun _ r' => r.Tracks false true (Any .field) r' := by
  have hexpression := expression_tracks hin
  unfold fieldRest
  simp only [ensures_bind, ensures_kind, ensures_ite, ensures_take, ensures_spanFrom, ensures_pure]
  split
  next hk =>
    refine (hexpression r.taken).imp fun _ r₁ h₁ => ?_
    refine (expect_tracks (.sign .closeBracket) r₁).imp fun _ r₂ h₂ => ?_
    refine (expect_tracks (.sign .equals) r₂).imp fun _ r₃ h₃ => ?_
    refine (hexpression r₃).imp fun _ r₄ h₄ => ?_
    have h₀ := terminal_tracks hk (.sign .openBracket) rfl
    refine (h₀.comp (h₁.comp (h₂.comp (h₃.comp h₄ rfl) rfl) rfl) rfl).imp ?_
    rintro i o ⟨_, hopen, _, ⟨k, hkey⟩, _, hclose, _, hequals, e, hvalue⟩
    exact ⟨.keyed k e (.empty 0), .keyed hopen hkey hclose hequals hvalue⟩
  split
  next hyes =>
    obtain ⟨hk, hequals⟩ := hnamed hyes
    intro n r₁ hname
    rw [run_name hk] at hname
    cases hname
    refine (hexpression r.taken.taken).imp fun _ r₂ h₂ => ?_
    have h₀ := terminal_tracks hk someName rfl
    have h₁ := terminal_tracks hequals (.sign .equals) rfl
    refine (h₀.comp (h₁.comp h₂ rfl) rfl).imp ?_
    rintro i o ⟨_, hn, _, hequals, e, hvalue⟩
    cases hn with
    | mk hn => exact ⟨.named _ e (.empty 0), .named (.mk hn) hequals hvalue⟩
  next =>
    refine (hexpression r).imp fun _ r₁ h₁ => h₁.imp ?_
    rintro i o ⟨e, he⟩
    exact ⟨.positional e (.empty 0), .positional he⟩

theorem field_tracks (hin : inner.Tracks) [inner.Acting] (r : Reading) :
    Ensures (field inner) r fun _ r' => r.Tracks false true (Any .field) r' := by
  rw [field_eq]
  simp only [ensures_bind, ensures_start, ensures_kind, ensures_ite]
  split
  next hk =>
    intro k r₁ hpeek f r' hrest
    have hne : r.current.kind ≠ .endOfFile := by simp [hk]
    refine .of_ready ((Acting.acts hpeek).trans (Acting.acts hrest)) begins_field fun hr => ?_
    -- The name is still current, and what was seen is the kind of the token behind it.
    have hat : r.At (r.current :: r.taken.current :: r.taken.ahead.map Lexeme.token) :=
      ⟨hr.sound, hr.silent, Reading.At.clean hr, hr.sound.tokens_eq hne⟩
    obtain ⟨rfl, hat₁, -⟩ := peekKind_at hat hpeek
    have htakes := (Prompt.prompted hr hpeek).takes hat₁.silent
    have hlooked : r.Tracks false true Eq r₁ := by
      refine ⟨htakes.acts, .nil rfl, fun _ => .took (c := []) htakes ?_ (fun o _ => rfl) (by simp)⟩
      rw [hat.tokens, hat₁.tokens]
      rfl
    have hnext : r₁.taken.current = r.taken.current := (hat₁.taken hne).current
    refine (hlooked.comp (fieldRest_tracks hin (fun hequals => ?_) f r' hrest) rfl).imp ?_
    · exact ⟨by rw [hat₁.current, hk], by rw [hnext]; simpa using hequals⟩
    · rintro i o ⟨_, hio, hfield⟩
      exact hio ▸ hfield
  next => exact fieldRest_tracks hin (by simp)

/-- A comma or a semicolon. -/
def Separator (i o : List Token) : Prop :=
  ∃ k, (k = .sign .comma ∨ k = .sign .semicolon) ∧ Terminal k i o

theorem many_fields {i m o : List Token} (h : ReflTransGen (Comp (Any .field) Separator) i m)
    (hlast : Any .fields m o) : Any .fields i o := by
  induction h using ReflTransGen.head_induction_on with
  | refl => exact hlast
  | head hone _ ih =>
    obtain ⟨m', ⟨f, hf⟩, k, hk, hsep⟩ := hone
    obtain ⟨fs, hfs⟩ := ih
    exact ⟨_, .moreFields hf hk hsep hfs⟩

theorem table_tracks (hin : inner.Tracks) [inner.Acting] {opens tight : Bool}
    {G : List Token → List Token → Prop} (hk : r.current.kind = .sign .openBrace)
    (hleast : Begins opens tight G []) (hG : ∀ i o, Any .table i o → G i o) :
    Ensures (table inner) r fun _ r' => r.Tracks opens tight G r' := by
  rw [table_eq]
  simp only [ensures_bind, ensures_start, ensures_spanFrom, ensures_pure, ensures_expect hk]
  have hfields : Ensures (loop (fieldStep inner) []) r.taken fun _ r' =>
      r.taken.Tracks false true (Any .fields) r' := by
    refine Ensures.loop (fun _ r' =>
      r.taken.Tracks false true (ReflTransGen (Comp (Any .field) Separator)) r')
      ((Tracks.refl rfl r.taken).imp fun i o hio => hio ▸ .refl) fun fields r₂ h₂ => ?_
    unfold fieldStep fieldEnd
    simp only [ensures_bind, ensures_kind, ensures_ite, ensures_pure, ensures_take]
    split
    · exact h₂.imp fun _ _ hio => many_fields hio ⟨[], .noFields⟩
    refine (field_tracks hin r₂).imp fun _ r₃ h₃ => ?_
    split
    next hsep =>
      have hne : r₃.current.kind ≠ .endOfFile := by rcases hsep with hs | hs <;> simp [hs]
      have hcomma : Begins false true Separator [] :=
        ((Begins.terminal (x := .sign .comma) rfl).imp fun _ _ h => ⟨_, .inl rfl, h⟩).loosen
          id (Bool.false_le _)
      exact h₂.snoc (h₃.comp (tracks_taken hne hcomma fun o => ⟨_, hsep, .mk rfl⟩) rfl)
    next =>
      refine (h₂.comp h₃ rfl).imp ?_
      rintro i o ⟨_, hmany, f, hf⟩
      exact many_fields hmany ⟨_, .lastField hf⟩
  refine hfields.imp fun _ r₂ h₂ => ?_
  refine (expect_tracks (.sign .closeBrace) r₂).imp fun _ r₃ h₃ => ?_
  refine ((h₂.comp h₃ rfl).loosen id (Bool.false_le tight)).behind (by simp [hk]) hleast ?_
  rintro i o ⟨_, ⟨fs, hfs⟩, hclose⟩
  exact hG _ _ ⟨fs, .braces (.mk hk) hfs hclose⟩

/-! ### Prefix expressions -/

theorem begins_arguments : Begins true false (Any .arguments) [] := by
  refine ((Begins.terminal (x := .sign .openParenthesis) rfl).comp
    (Begins.terminal (x := .sign .closeParenthesis) rfl) rfl).imp ?_
  rintro i o ⟨_, hopen, hclose⟩
  exact ⟨[], .noArguments hopen hclose⟩

theorem arguments_tracks (hin : inner.Tracks) [inner.Acting] (r : Reading) :
    Ensures (arguments inner) r fun _ r' => r.Tracks true false (Any .arguments) r' := by
  unfold arguments
  simp only [ensures_bind, ensures_kind]
  split
  next hk =>
    simp only [literal, ensures_bind, ensures_take, ensures_pure]
    exact tracks_taken (by simp [hk]) begins_arguments fun o => ⟨_, .stringArgument hk⟩
  next hk =>
    simp only [ensures_bind, ensures_pure]
    refine table_tracks hin hk begins_arguments ?_
    rintro i o ⟨fs, hfs⟩
    exact ⟨[.table fs (.empty 0)], .tableArgument hfs⟩
  next =>
    simp only [ensures_bind, ensures_kind, ensures_ite, ensures_pure]
    refine (expect_tracks (.sign .openParenthesis) r).imp fun _ r₁ h₁ => ?_
    split
    next =>
      refine (expect_tracks (.sign .closeParenthesis) r₁).imp fun _ r₂ h₂ => ?_
      refine (h₁.comp h₂ rfl).imp ?_
      rintro i o ⟨_, hopen, hclose⟩
      exact ⟨[], .noArguments hopen hclose⟩
    next =>
      refine (expressions_tracks hin r₁).imp fun _ r₂ h₂ => ?_
      refine (expect_tracks (.sign .closeParenthesis) r₂).imp fun _ r₃ h₃ => ?_
      refine (h₁.comp (h₂.comp h₃ rfl) rfl).imp ?_
      rintro i o ⟨_, hopen, _, ⟨es, hes⟩, hclose⟩
      exact ⟨es, .someArguments hopen hes hclose⟩

/-- A prefix expression that is a variable or a call where the shape says so. -/
def Shaped (shape : Shape) (i o : List Token) : Prop :=
  ∃ e, Derives (.prefixed e) i o ∧ (shape = .parenthesized ∨ e.shape = shape)

/-- What was read is a variable if its shape says so. -/
def Fair (x : Expression × Shape) : Prop := x.1.isVariable = true ↔ x.2 = .variable

theorem prefixHead_tracks (hin : inner.Tracks) (r : Reading) :
    Ensures (prefixHead inner) r fun x r' => r.Tracks false false (Shaped x.2) r' ∧ Fair x := by
  have hname (shape : Shape) (h : shape ≠ .call) (i o : List Token) (hn : AnyWord i o) :
      Shaped shape i o := by
    obtain ⟨n, hn⟩ := hn
    refine ⟨_, .name hn, ?_⟩
    cases shape <;> simp_all [Expression.shape]
  unfold prefixHead
  simp only [ensures_bind, ensures_start, ensures_kind]
  split
  next =>
    simp only [ensures_bind, ensures_pure]
    refine (name_tracks r).imp fun n r₁ h₁ => ⟨h₁.imp (hname _ (by simp)), ?_⟩
    simp [Fair, Expression.isVariable]
  next hk =>
    simp only [ensures_bind, ensures_take, ensures_spanFrom, ensures_pure]
    refine (expression_tracks hin r.taken).imp fun _ r₁ h₁ => ?_
    refine (expect_tracks (.sign .closeParenthesis) r₁).imp fun _ r₂ h₂ => ?_
    refine ⟨(h₁.comp h₂ rfl).behind (by simp [hk]) (begins_word.imp (hname _ (by simp))) ?_, ?_⟩
    · rintro i o ⟨_, ⟨e, he⟩, hclose⟩
      exact ⟨.parenthesized e (.empty 0), .parenthesized (.mk hk) he hclose, .inl rfl⟩
    · simp [Fair, Expression.isVariable]
  next =>
    simp only [ensures_bind, ensures_span]
    refine (report_tracks _ _ r).imp fun _ r₁ h₁ => ?_
    simp only [ensures_supply, ensures_pure]
    refine ⟨h₁ (begins_word.imp (hname _ (by simp))) (.single (.supplied r₁ .name)), ?_⟩
    simp [Fair, Expression.isVariable]

/-- One more index or call, if what follows is one. -/
theorem suffix_tracks (hin : inner.Tracks) [inner.Acting] {r₁ : Reading} {st : Nat}
    {e : Expression × Shape} (h : r.Tracks false false (Shaped e.2) r₁) (he : Fair e) :
    Ensures (suffix inner st e) r₁ fun x r' => match x with
      | .inl e' => r.Tracks false false (Shaped e'.2) r' ∧ Fair e'
      | .inr e' => (r.Tracks false false (Shaped e'.2) r' ∧ Fair e') ∧
        opensArguments r'.current.kind = false := by
  have harguments {r₂ : Reading} (hcall : r₁.Tracks true false (Any .arguments) r₂) :
      r.Tracks false false (Shaped .call) r₂ := by
    refine (h.comp hcall rfl).imp ?_
    rintro i o ⟨_, ⟨x, hx, _⟩, es, hes⟩
    exact ⟨.call x none es (.empty 0), .call hx hes, .inr rfl⟩
  unfold suffix
  simp only [ensures_bind, ensures_kind]
  split
  next hk =>
    simp only [ensures_bind, ensures_take, ensures_spanFrom, ensures_pure]
    refine (name_tracks r₁.taken).imp fun _ r₂ h₂ => ⟨?_, by simp [Fair, Expression.isVariable]⟩
    have h₁ := terminal_tracks hk (.sign .dot) rfl
    refine (h.comp (h₁.comp h₂ rfl) rfl).imp ?_
    rintro i o ⟨_, ⟨x, hx, _⟩, _, hdot, n, hn⟩
    exact ⟨.dotted x n (.empty 0), .dotted hx hdot hn, .inr rfl⟩
  next hk =>
    simp only [ensures_bind, ensures_take, ensures_spanFrom, ensures_pure]
    refine (expression_tracks hin r₁.taken).imp fun _ r₂ h₂ => ?_
    refine (expect_tracks (.sign .closeBracket) r₂).imp fun _ r₃ h₃ => ?_
    refine ⟨?_, by simp [Fair, Expression.isVariable]⟩
    have h₁ := terminal_tracks hk (.sign .openBracket) rfl
    refine (h.comp (h₁.comp (h₂.comp h₃ rfl) rfl) rfl).imp ?_
    rintro i o ⟨_, ⟨x, hx, _⟩, _, hopen, _, ⟨y, hy⟩, hclose⟩
    exact ⟨.index x y (.empty 0), .index hx hopen hy hclose, .inr rfl⟩
  next hk =>
    simp only [ensures_bind, ensures_take, ensures_spanFrom, ensures_pure]
    refine (name_tracks r₁.taken).imp fun _ r₂ h₂ => ?_
    refine (arguments_tracks hin r₂).imp fun _ r₃ h₃ => ⟨?_, by simp [Fair, Expression.isVariable]⟩
    have h₁ := terminal_tracks hk (.sign .colon) rfl
    refine (h.comp (h₁.comp (h₂.comp h₃ rfl) rfl) rfl).imp ?_
    rintro i o ⟨_, ⟨x, hx, _⟩, _, hcolon, _, ⟨n, hn⟩, es, hes⟩
    exact ⟨.call x (some n) es (.empty 0), .methodCall hx hcolon hn hes, .inr rfl⟩
  iterate 3
    · simp only [ensures_bind, ensures_spanFrom, ensures_pure]
      refine (arguments_tracks hin r₁).imp fun _ r₂ h₂ => ⟨harguments h₂, ?_⟩
      simp [Fair, Expression.isVariable]
  next =>
    rw [ensures_pure]
    refine ⟨⟨h, he⟩, ?_⟩
    unfold opensArguments
    split <;> simp_all

theorem prefixExpression_tracks (hin : inner.Tracks) [inner.Acting] (r : Reading) :
    Ensures (prefixExpression inner) r fun x r' =>
      (r.Tracks false false (Shaped x.2) r' ∧ Fair x) ∧
        opensArguments r'.current.kind = false := by
  unfold prefixExpression
  simp only [ensures_bind, ensures_start]
  refine (prefixHead_tracks hin r).imp fun x r₁ h₁ => ?_
  refine Ensures.loop (fun x r' => r.Tracks false false (Shaped x.2) r' ∧ Fair x) h₁ ?_
  intro x r₂ h₂
  refine (suffix_tracks hin h₂.1 h₂.2).imp fun y r₃ h₃ => ?_
  cases y <;> exact h₃

/-! ### Operators -/

theorem primary_tracks (hin : inner.Tracks) [inner.Acting] (r : Reading) :
    Ensures (primary inner) r fun _ r' => r.Tracks false true (Any .expression) r' := by
  unfold primary
  simp only [ensures_bind, ensures_start, ensures_kind]
  split
  iterate 6
    · rename_i hk
      exact literal_tracks (by simp [hk, isLiteral])
  next hk =>
    simp only [ensures_bind, ensures_take, ensures_spanFrom, ensures_pure]
    exact tracks_taken (by simp [hk]) begins_expression fun o =>
      ⟨.vararg (.empty 0), .vararg (.mk hk)⟩
  next hk =>
    simp only [ensures_bind, ensures_take, ensures_spanFrom, ensures_pure]
    refine (functionBody_tracks hin r.taken).imp fun _ r₁ h₁ => ?_
    refine (h₁.loosen id (Bool.false_le true)).behind (by simp [hk]) begins_expression ?_
    rintro i o ⟨f, hf⟩
    exact ⟨.function f (.empty 0), .function (.mk hk) hf⟩
  next hk =>
    refine table_tracks hin hk begins_expression ?_
    rintro i o ⟨fs, hfs⟩
    exact ⟨.table fs (.empty 0), .table hfs⟩
  next =>
    simp only [ensures_bind, ensures_pure]
    refine (prefixExpression_tracks hin r).imp fun x r₁ h₁ => (h₁.1.1.close h₁.2).imp ?_
    rintro i o ⟨⟨e, he, _⟩, ho⟩
    exact ⟨e, .prefixed he ho⟩

theorem unary_tracks (hin : inner.Tracks) [inner.Acting] (r : Reading) :
    Ensures (unary inner) r fun _ r' => r.Tracks false true (Any .expression) r' := by
  unfold unary
  simp only [ensures_bind, ensures_start, ensures_kind]
  split
  next op hop =>
    simp only [ensures_bind, ensures_take, ensures_spanFrom, ensures_pure]
    have hk := UnaryOperator.kind_of_ofKind? hop
    refine (hin.operand _ r.taken).imp fun _ r₁ h₁ => ?_
    refine h₁.behind (hk ▸ UnaryOperator.kind_ne_endOfFile op) begins_expression ?_
    rintro i o ⟨e, he⟩
    exact ⟨.unary op e (.empty 0), .unary (.mk hk) he⟩
  next => exact primary_tracks hin r

theorem operand_tracks (hin : inner.Tracks) [inner.Acting] (parent : Nat) (r : Reading) :
    Ensures (Read.operand inner parent) r fun _ r' => r.Tracks false true (Any .expression) r' := by
  unfold Read.operand
  simp only [ensures_bind, ensures_start]
  refine (unary_tracks hin r).imp fun _ r₁ h₁ => ?_
  refine Ensures.loop (fun _ r' => r.Tracks false true (Any .expression) r') h₁ fun left r₂ h₂ => ?_
  unfold infixed
  simp only [ensures_bind, ensures_kind]
  split
  next op hop =>
    simp only [ensures_ite, ensures_bind, ensures_take, ensures_spanFrom, ensures_pure]
    split
    next =>
      have hk := BinaryOperator.kind_of_ofKind? hop
      obtain ⟨x, hx⟩ : ∃ x : Item, x.kind = op.kind := by
        cases op <;> first | exact ⟨.sign _, rfl⟩ | exact ⟨.keyword _, rfl⟩
      have hplain : opensArguments op.kind = false := by cases op <;> rfl
      have hsign := terminal_tracks hk x hx
      rw [hplain] at hsign
      refine (hin.operand _ r₂.taken).imp fun _ r₃ h₃ => ?_
      refine (h₂.comp (hsign.comp h₃ rfl) rfl).imp ?_
      rintro i o ⟨_, ⟨l, hl⟩, _, hop, y, hy⟩
      exact ⟨.binary l op y (.empty 0), .binary hl hop hy⟩
    next => exact h₂
  next =>
    rw [ensures_pure]
    exact h₂

end Read
end Syntax
end LuaFront
