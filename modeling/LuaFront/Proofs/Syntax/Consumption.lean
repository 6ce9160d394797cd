import LuaFront.Proofs.Syntax.Depth
import LuaFront.Proofs.Syntax.FirstError
import LuaFront.Proofs.Syntax.Progress

/-!
# LuaFront.Proofs.Syntax.Consumption

Reading a text ends, and consumes its tokens one by one.

* `Reading.Spends r r'`: from `r` to `r'` the tokens that are left went into the journal, in order,
  and none was dropped. Looking at a token ahead is no matter for that.
* `Read.Spending m`: this is how the reader `m` works, or works where a token of some kind is
  current (`Read.SpendingAt`). What may not happen is that the end of file is consumed.
* `Tree.parse_consumes`: reading a text gives the same with any greater bound on the depth, and no
  loop of it needs its bound.
-/

namespace LuaFront

namespace Event

def consumed? : Event → Option Token
  | .took t => some t
  | _ => none

def dropped? : Event → Option Kind
  | .forced k _ => some k
  | _ => none

end Event

namespace Journal

/-- The tokens that were consumed, in order. -/
def consumed (j : Journal) : List Token := j.events.filterMap Event.consumed?

/-- The kinds of the tokens that were dropped for reading to go on. -/
def dropped (j : Journal) : List Kind := j.events.filterMap Event.dropped?

variable {α : Type} {f : Event → Option α}

theorem filterMap_record (j : Journal) (e : Event) :
    (j.record e).events.filterMap f = j.events.filterMap f ++ (f e).toList := by
  rw [events_record, List.filterMap_append]
  cases h : f e <;> simp [h]

theorem filterMap_reportAll (hf : ∀ d, f (.reported d) = none) (j : Journal)
    (ds : List Diagnostic) : (j.reportAll ds).events.filterMap f = j.events.filterMap f := by
  have hnil : (ds.map Event.reported).filterMap f = [] := by
    refine List.filterMap_eq_nil_iff.2 fun e he => ?_
    obtain ⟨d, -, rfl⟩ := List.mem_map.1 he
    exact hf d
  rw [events_reportAll, List.filterMap_append, hnil, List.append_nil]

theorem consumed_record (j : Journal) (e : Event) :
    (j.record e).consumed = j.consumed ++ e.consumed?.toList :=
  filterMap_record j e

theorem dropped_record (j : Journal) (e : Event) :
    (j.record e).dropped = j.dropped ++ e.dropped?.toList :=
  filterMap_record j e

@[simp] theorem consumed_reportAll (j : Journal) (ds : List Diagnostic) :
    (j.reportAll ds).consumed = j.consumed :=
  filterMap_reportAll (fun _ => rfl) j ds

@[simp] theorem dropped_reportAll (j : Journal) (ds : List Diagnostic) :
    (j.reportAll ds).dropped = j.dropped :=
  filterMap_reportAll (fun _ => rfl) j ds

end Journal

namespace Syntax

open Text (Span)

namespace Reading

structure Spends (r r' : Reading) : Prop where
  tokens : r'.journal.consumed ++ r'.tokens = r.journal.consumed ++ r.tokens
  dropped : r'.journal.dropped = r.journal.dropped

@[simp] theorem consumed_noted (r : Reading) (l : Lexeme) (j : Journal) :
    (r.noted l j).consumed = j.consumed := by
  unfold noted
  split <;> simp

@[simp] theorem dropped_noted (r : Reading) (l : Lexeme) (j : Journal) :
    (r.noted l j).dropped = j.dropped := by
  unfold noted
  split <;> simp

namespace Spends

variable {r r₁ r₂ : Reading}

theorem refl (r : Reading) : r.Spends r := ⟨rfl, rfl⟩

theorem trans (h₁ : r.Spends r₁) (h₂ : r₁.Spends r₂) : r.Spends r₂ :=
  ⟨h₂.tokens.trans h₁.tokens, h₂.dropped.trans h₁.dropped⟩

/-- Something is noted that is no token. -/
theorem noted (h : r₁.tokens = r.tokens) {e : Event}
    (hjournal : r₁.journal = r.journal.record e) (hconsumed : e.consumed? = none)
    (hdropped : e.dropped? = none) : r.Spends r₁ := by
  refine ⟨?_, ?_⟩
  · rw [hjournal, Journal.consumed_record, hconsumed, h, Option.toList_none, List.append_nil]
  · rw [hjournal, Journal.dropped_record, hdropped, Option.toList_none, List.append_nil]

theorem taken (hr : r.Sound) (hk : r.current.kind ≠ .endOfFile) : r.Spends r.taken := by
  have hconsumed : r.taken.journal.consumed = r.journal.consumed ++ [r.current] := by
    unfold Reading.taken
    cases r.ahead with
    | nil => exact Journal.consumed_record ..
    | cons l ahead => simp [Journal.consumed_record, Event.consumed?]
  refine ⟨?_, ?_⟩
  · rw [hconsumed, hr.tokens_eq hk, List.append_assoc]
    rfl
  · unfold Reading.taken
    cases r.ahead with
    | nil => simp [Journal.dropped_record, Event.dropped?]
    | cons l ahead => simp [Journal.dropped_record, Event.dropped?]

/-- A token that was looked at is neither consumed nor lost. -/
theorem looked (r : Reading) : r.Spends r.looked := by
  have hjournal : r.looked.journal.consumed = r.journal.consumed ∧
      r.looked.journal.dropped = r.journal.dropped := by
    unfold Reading.looked
    split <;> simp
  refine ⟨?_, hjournal.2⟩
  rw [hjournal.1, tokens_looked]

end Spends
end Reading

/-! ## Readers that consume tokens one by one -/

namespace Read

variable {α β σ : Type}

class Spending (m : Read α) : Prop where
  spends : ∀ {r : Reading} {a : α} {r' : Reading}, r.Sound → m.run r = some (a, r') → r.Spends r'

/-- A reader that consumes tokens one by one where the current one is of kind `x`. -/
class SpendingAt (x : Kind) (m : Read α) : Prop where
  spends : ∀ {r : Reading} {a : α} {r' : Reading}, r.Sound → r.current.kind = x →
    m.run r = some (a, r') → r.Spends r'

instance (priority := low) (x : Kind) (m : Read α) [Spending m] : SpendingAt x m where
  spends hr _ hrun := Spending.spends hr hrun

instance (a : α) : Spending (pure a) where
  spends _ hrun := by
    cases hrun
    exact .refl _

instance : Spending (failure : Read α) where
  spends _ hrun := by cases hrun

section

variable (x : Kind) (m : Read α) (k : α → Read β)

instance Spending.bind [Acting m] [Spending m] [∀ a, Spending (k a)] : Spending (m >>= k) where
  spends hr hrun := by
    obtain ⟨a, r₁, hm, hk⟩ := run_bind_eq_some.1 hrun
    exact (Spending.spends hr hm).trans (Spending.spends ((Acting.acts hm).sound hr) hk)

instance [Acting m] [SpendingAt x m] [∀ a, Spending (k a)] : SpendingAt x (m >>= k) where
  spends hr hx hrun := by
    obtain ⟨a, r₁, hm, hk⟩ := run_bind_eq_some.1 hrun
    exact (SpendingAt.spends hr hx hm).trans (Spending.spends ((Acting.acts hm).sound hr) hk)

end

instance (f : α → β) (m : Read α) [Acting m] [Spending m] : Spending (f <$> m) := by
  rw [map_eq_pure_bind]
  infer_instance

instance (x : Kind) (f : α → β) (m : Read α) [Acting m] [SpendingAt x m] :
    SpendingAt x (f <$> m) := by
  rw [map_eq_pure_bind]
  infer_instance

instance (c : Prop) [Decidable c] (m m' : Read α) [Spending m] [Spending m'] :
    Spending (if c then m else m') := by
  split <;> infer_instance

instance : Spending (get : Read Reading) where
  spends _ hrun := by
    cases hrun
    exact .refl _

instance : Spending kind := by unfold kind; infer_instance
instance : Spending start := by unfold start; infer_instance
instance : Spending span := by unfold span; infer_instance
instance (n : Nat) : Spending (spanFrom n) := by unfold spanFrom; infer_instance

instance : Spending peekKind where
  spends {r _ _} _ hrun := by
    rw [run_peekKind] at hrun
    cases hrun
    exact .looked _

instance (at_ : Span) (cause : Cause) : Spending (report at_ cause) where
  spends _ hrun := by
    rw [run_report] at hrun
    cases hrun
    split
    · exact .noted rfl rfl rfl rfl
    · exact .refl _

instance (k : Kind) : Spending (supply k) where
  spends _ hrun := by
    cases hrun
    exact .noted rfl rfl rfl rfl

/-! ### Readers behind a look at the current token -/

section

variable (x : Kind)

instance (priority := high) (k : Kind → Read α) [SpendingAt x (k x)] :
    SpendingAt x (kind >>= k) where
  spends hr hx hrun := by
    rw [run_kind_bind, hx] at hrun
    exact SpendingAt.spends hr hx hrun

instance (priority := high) (k : Nat → Read α) [∀ n, SpendingAt x (k n)] :
    SpendingAt x (start >>= k) where
  spends hr hx hrun := by
    rw [run_start_bind] at hrun
    exact SpendingAt.spends hr hx hrun

instance (priority := high) (k : Span → Read α) [∀ n, SpendingAt x (k n)] :
    SpendingAt x (span >>= k) where
  spends hr hx hrun := by
    rw [run_span_bind] at hrun
    exact SpendingAt.spends hr hx hrun

instance (priority := high) (at_ : Span) (cause : Cause) (k : Unit → Read α)
    [∀ u, SpendingAt x (k u)] : SpendingAt x (report at_ cause >>= k) where
  spends {r a r'} hr hx hrun := by
    obtain ⟨u, r₁, hreport, hk⟩ := run_bind_eq_some.1 hrun
    have hx₁ : r₁.current.kind = x := by
      rw [run_report] at hreport
      cases hreport
      split <;> exact hx
    exact (Spending.spends hr hreport).trans
      (SpendingAt.spends ((Acting.acts hreport).sound hr) hx₁ hk)

end

/-! ### Single tokens and lists -/

section

variable (x : Kind) [x.Present]

instance : SpendingAt x take where
  spends {r a r'} hr hx hrun := by
    rw [run_take] at hrun
    cases hrun
    exact .taken hr (hx ▸ Kind.Present.ne)

instance : Spending (takeIf x) where
  spends {r a r'} hr hrun := by
    rw [takeIf, run_kind_bind] at hrun
    split at hrun
    next hk => exact SpendingAt.spends hr hk hrun
    next => exact Spending.spends hr hrun

instance : Spending (expect x) where
  spends {r a r'} hr hrun := by
    rw [expect, run_kind_bind] at hrun
    split at hrun
    next hk => exact SpendingAt.spends hr hk hrun
    next => exact Spending.spends hr hrun

end

instance : Spending name := by unfold name; infer_instance

instance (step : σ → Read (σ ⊕ α)) [∀ a, Acting (step a)] [∀ a, Spending (step a)] (turns : Nat)
    (a : σ) : Spending (loopWith step turns a) := by
  induction turns generalizing a with
  | zero => unfold loopWith; infer_instance
  | succ turns ih =>
    rw [loopWith]
    refine @Spending.bind _ _ _ _ _ _ fun x => ?_
    cases x <;> infer_instance

instance Spending.loop (step : σ → Read (σ ⊕ α)) [∀ a, Acting (step a)] [∀ a, Spending (step a)]
    (a : σ) : Spending (Read.loop step a) := by
  unfold Read.loop; infer_instance

instance (x : Kind) [x.Present] (item : Read α) [Acting item] [Spending item] :
    Spending (following x item) := by
  unfold following; infer_instance

instance (x : Kind) [x.Present] (item : Read α) [Acting item] [Spending item] :
    Spending (separated x item) := by
  unfold separated; infer_instance

end Read

/-! ## Readers of the grammar -/

class Nested.Spending (inner : Nested) : Prop where
  operand : ∀ parent, Read.Spending (inner.operand parent)
  block : Read.Spending inner.block

-- A reader in sequence has one instance for each of its steps.
set_option synthInstance.maxSize 4096

namespace Read

variable (inner : Nested) [inner.Acting] [inner.Spending]

instance (parent : Nat) : Spending (inner.operand parent) := Nested.Spending.operand parent
instance : Spending inner.block := Nested.Spending.block
instance : Spending inner.expression := Nested.Spending.operand 0
instance : Spending inner.expressions := by unfold Nested.expressions; infer_instance

instance : Spending parameters := by unfold parameters; infer_instance
instance : Spending (functionBody inner) := by unfold functionBody; infer_instance

instance (x : Kind) [x.Present] : SpendingAt x literal := by unfold literal; infer_instance

/-- What was seen ahead is what is consumed behind the current token. -/
theorem peekKind_taken {r r₁ : Reading} {k : Kind} (hrun : peekKind.run r = some (k, r₁)) :
    r₁.current = r.current ∧ r₁.taken.current.kind = k := by
  rw [run_peekKind] at hrun
  cases hrun
  refine ⟨r.current_looked, ?_⟩
  rw [Reading.current_taken, Reading.ahead_looked, Reading.current_looked]
  cases r.ahead <;> rfl

/-- A field of which it is known whether it has a name. -/
theorem fieldRest_spends {st : Nat} {named : Bool} {r r' : Reading} {f : Field} (hr : r.Sound)
    (hnamed : named = true → r.current.kind = .name ∧ r.taken.current.kind = .sign .equals)
    (hrun : (fieldRest inner st named).run r = some (f, r')) : r.Spends r' := by
  rw [fieldRest, run_kind_bind] at hrun
  split at hrun
  next hk => exact SpendingAt.spends hr hk hrun
  cases named with
  | false =>
    rw [if_neg (by simp)] at hrun
    exact Spending.spends hr hrun
  | true =>
    obtain ⟨hk, hnext⟩ := hnamed rfl
    obtain ⟨n, r₁, hname, hrest⟩ := run_bind_eq_some.1 hrun
    rw [run_name hk] at hname
    cases hname
    exact (Reading.Spends.taken hr (by simp [hk])).trans (SpendingAt.spends hr.taken hnext hrest)

instance : Spending (field inner) where
  spends {r f r'} hr hrun := by
    rw [field_eq, run_start_bind, run_kind_bind] at hrun
    split at hrun
    next hk =>
      obtain ⟨k, r₁, hpeek, hrest⟩ := run_bind_eq_some.1 hrun
      obtain ⟨hcurrent, hnext⟩ := peekKind_taken hpeek
      refine (Spending.spends hr hpeek).trans ?_
      refine fieldRest_spends inner ((Acting.acts hpeek).sound hr) (fun hnamed => ?_) hrest
      exact ⟨by rw [hcurrent, hk], hnext.trans (by simpa using hnamed)⟩
    next => exact fieldRest_spends inner hr (by simp) hrun

instance (fields : List Field) : Spending (fieldEnd fields) where
  spends {r x r'} hr hrun := by
    rw [fieldEnd, run_kind_bind, run_kind_bind] at hrun
    split at hrun
    next hk =>
      rcases hk with hk | hk
      · exact SpendingAt.spends hr hk hrun
      · exact SpendingAt.spends hr hk hrun
    next => exact Spending.spends hr hrun

instance (fields : List Field) : Spending (fieldStep inner fields) := by
  unfold fieldStep; infer_instance

instance : Spending (table inner) := by rw [table_eq]; infer_instance

instance : Spending (arguments inner) where
  spends {r x r'} hr hrun := by
    rw [arguments, run_kind_bind] at hrun
    split at hrun
    next hk => exact SpendingAt.spends hr hk hrun
    next => exact Spending.spends hr hrun
    next => exact Spending.spends hr hrun

instance : Spending (prefixHead inner) where
  spends {r x r'} hr hrun := by
    rw [prefixHead, run_start_bind, run_kind_bind] at hrun
    split at hrun
    next => exact Spending.spends hr hrun
    next hk => exact SpendingAt.spends hr hk hrun
    next => exact Spending.spends hr hrun

instance (st : Nat) (e : Expression × Shape) : Spending (suffix inner st e) where
  spends {r x r'} hr hrun := by
    rw [suffix, run_kind_bind] at hrun
    split at hrun
    iterate 3
      next hk => exact SpendingAt.spends hr hk hrun
    all_goals exact Spending.spends hr hrun

instance : Spending (prefixExpression inner) := by unfold prefixExpression; infer_instance

instance : Spending (primary inner) where
  spends {r x r'} hr hrun := by
    rw [primary, run_start_bind, run_kind_bind] at hrun
    split at hrun
    iterate 8
      next hk => exact SpendingAt.spends hr hk hrun
    all_goals exact Spending.spends hr hrun

instance : Spending (unary inner) where
  spends {r x r'} hr hrun := by
    rw [unary, run_start_bind, run_kind_bind] at hrun
    split at hrun
    next op hop => exact SpendingAt.spends hr (UnaryOperator.kind_of_ofKind? hop) hrun
    next => exact Spending.spends hr hrun

instance (parent st : Nat) (left : Expression) : Spending (infixed inner parent st left) where
  spends {r x r'} hr hrun := by
    rw [infixed, run_kind_bind] at hrun
    split at hrun
    next op hop =>
      split at hrun
      · exact SpendingAt.spends hr (BinaryOperator.kind_of_ofKind? hop) hrun
      · exact Spending.spends hr hrun
    next => exact Spending.spends hr hrun

instance (parent : Nat) : Spending (Read.operand inner parent) := by
  unfold Read.operand; infer_instance

instance : Spending (blockToEnd inner) := by unfold blockToEnd; infer_instance
instance : Spending (results inner) := by unfold results; infer_instance
instance : Spending (result inner) := by unfold result; infer_instance

instance : SpendingAt (.keyword .«elseif») (elseIf inner) := by unfold elseIf; infer_instance

instance : Spending (elseIfs inner) := by
  unfold elseIfs
  refine @Spending.loop _ _ _ _ (fun elseIfs => ⟨fun {r x r'} hr hrun => ?_⟩) _
  rw [run_kind_bind] at hrun
  split at hrun
  next hk => exact SpendingAt.spends hr hk hrun
  next => exact Spending.spends hr hrun

instance : Spending (otherwise inner) := by unfold otherwise; infer_instance
instance : Spending (ifThen inner) := by unfold ifThen; infer_instance
instance : Spending (step inner) := by unfold step; infer_instance
instance : Spending (forLoop inner) := by unfold forLoop; infer_instance
instance : Spending method := by unfold method; infer_instance
instance : Spending functionName := by unfold functionName; infer_instance
instance : Spending (function inner) := by unfold function; infer_instance
instance : Spending attrib := by unfold attrib; infer_instance
instance : Spending declaration := by unfold declaration; infer_instance
instance : Spending (initializer inner) := by unfold initializer; infer_instance
instance : Spending (localStatement inner) := by unfold localStatement; infer_instance

instance (target : Expression) : Spending (checkTarget target) := by
  unfold checkTarget; dsimp only; infer_instance

instance : Spending (callOrAssign inner) := by unfold callOrAssign; infer_instance

instance : Spending skipToStatement := by
  unfold skipToStatement
  refine @Spending.loop _ _ _ _ (fun _ => ⟨fun {r x r'} hr hrun => ?_⟩) _
  rw [run_kind_bind] at hrun
  split at hrun
  next => exact Spending.spends hr hrun
  next hstarts =>
    have hpresent := present_of_startsStatement hstarts
    exact SpendingAt.spends hr rfl hrun

instance (x : Kind) [x.Present] : SpendingAt x (statement inner) where
  spends {r a r'} hr hx hrun := by
    have hpresent : r.current.kind.Present := hx ▸ inferInstance
    rw [statement, run_start_bind, run_kind_bind] at hrun
    split at hrun
    all_goals exact SpendingAt.spends hr rfl hrun

/-- The statements of a block are read where a token is left. -/
instance (statements : List Statement) : Spending (blockStep inner statements) where
  spends {r x r'} hr hrun := by
    have hspends : Ensures (blockStep inner statements) r fun _ r' => r.Spends r' := by
      unfold blockStep
      simp only [ensures_bind, ensures_kind, ensures_ite, ensures_pure, ensures_takeIf]
      split
      · exact .refl r
      next hends =>
        have hpresent := present_of_endsBlock hends
        split
        · exact fun _ _ hresult => Spending.spends hr hresult
        split
        · exact .taken hr hpresent.ne
        · simp only [Bool.false_eq_true, if_false]
          intro s r₁ hstatement
          rw [statementOrSkip_eq inner hr hpresent.ne] at hstatement
          exact SpendingAt.spends hr rfl hstatement
    exact hspends x r' hrun

instance : Spending (Read.block inner) where
  spends hr hrun := by
    obtain ⟨x, hloop, -⟩ := run_block hrun
    exact Spending.spends hr hloop

instance : Spending (chunk inner) := by
  unfold chunk
  refine @Spending.bind _ _ _ _ _ _ fun block => ?_
  refine @Spending.bind _ _ _ _ _ (@Spending.loop _ _ _ _ (fun block => ⟨?_⟩) _) inferInstance
  intro r x r' hr hrun
  rw [run_kind_bind] at hrun
  split at hrun
  next => exact Spending.spends hr hrun
  next hk =>
    have hpresent : r.current.kind.Present := ⟨hk⟩
    exact SpendingAt.spends hr rfl hrun

end Read

instance Nested.spending_upTo (depth : Nat) : (Nested.upTo depth).Spending := by
  induction depth with
  | zero =>
    exact ⟨fun _ => inferInstanceAs (Read.Spending failure),
      inferInstanceAs (Read.Spending failure)⟩
  | succ depth ih =>
    exact ⟨fun parent => inferInstanceAs (Read.Spending (Read.operand _ parent)),
      inferInstanceAs (Read.Spending (Read.block _))⟩

/-! ## Texts -/

theorem Reading.consumed_ofSource (source : Text.Source) :
    (ofSource source).journal.consumed = [] ∧ (ofSource source).journal.dropped = [] := by
  rw [ofSource_eq]
  unfold ofLexemes
  split
  · exact ⟨rfl, rfl⟩
  · exact ⟨Journal.consumed_reportAll .., Journal.dropped_reportAll ..⟩

namespace Tree

/-- A text is read with any depth that is enough, always to the same end. -/
theorem run_parse_upTo (source : Text.Source) :
    ∃ last, (∀ depth, (Reading.ofSource source).tokens.length ≤ depth →
        (Read.chunk (.upTo depth)).run (Reading.ofSource source) =
          some ((parse source).root, last)) ∧
      (parse source).journal =
        last.journal.record (.parsed source.length last.diagnostics.length) := by
  have hlen : (Reading.ofSource source).tokens.length =
      (Reading.ofSource source).ahead.length + 1 := by
    simp [Reading.tokens]
  obtain ⟨c, last, hrun, hjournal⟩ := run_parse source
  have hyields : Read.Yields (Read.chunk (Reading.ofSource source).nested)
      (Reading.ofSource source) fun c' _ => c' = c := ⟨c, last, hrun, rfl⟩
  obtain ⟨_, hroot, -⟩ := parse_of_yields hyields
  refine ⟨last, fun depth hdepth => ?_, hjournal⟩
  have hbelow : (Reading.ofSource source).nested.Below (.upTo depth) :=
    Nested.below_of_le (hlen ▸ hdepth)
  rw [hroot]
  exact Read.Below.run hrun

/-- Every text is read to its end, where all its tokens were consumed, once each and in order. No
statement leaves the token that it starts with, so none is dropped for reading to go on. Depth
beyond the number of tokens changes nothing, and no loop needs a bound. -/
theorem parse_consumes (source : Text.Source) :
    (∃ last,
      (∀ depth, (Reading.ofSource source).tokens.length ≤ depth →
        (Read.chunk (.upTo depth)).run (Reading.ofSource source) =
          some ((parse source).root, last)) ∧
      last.current.kind = .endOfFile ∧
      (parse source).journal.consumed ++ [last.current] =
        (Scanner.ofSource source).lexemes.map Lexeme.token) ∧
    (parse source).journal.dropped = [] ∧
    (∀ depth r, (Reading.ofSource source).Acts r → Read.endsBlock r.current.kind = false →
      (Read.Ensures (Read.statement (.upTo depth)) r fun _ r' =>
        r'.tokens.length < r.tokens.length) ∧
      (Read.statementOrSkip (.upTo depth)).run r = (Read.statement (.upTo depth)).run r) ∧
    ∀ depth, (Read.chunk (.upTo depth)).Built := by
  have hsound := Reading.sound_ofSource source
  obtain ⟨hconsumed, hdropped⟩ := Reading.consumed_ofSource source
  obtain ⟨last, hruns, hjournal⟩ := run_parse_upTo source
  have hrun := hruns _ (Nat.le_refl _)
  have hspends : (Reading.ofSource source).Spends last := Read.Spending.spends hsound hrun
  obtain ⟨hspreads, hkind, -⟩ := Read.chunk_spreads hsound _ _ _ hrun
  have hlast : last.tokens = [last.current] := by
    rw [Reading.tokens, ((hspreads.acts.sound hsound).ordered.of_endOfFile hkind).1]
  refine ⟨⟨last, hruns, hkind, ?_⟩, ?_, ?_, fun depth => inferInstance⟩
  · have hparsed : (parse source).journal.consumed = last.journal.consumed := by
      rw [hjournal, Journal.consumed_record]
      exact List.append_nil _
    rw [hparsed, ← hlast, hspends.tokens, hconsumed, List.nil_append, Reading.tokens_ofSource]
  · have hparsed : (parse source).journal.dropped = last.journal.dropped := by
      rw [hjournal, Journal.dropped_record]
      exact List.append_nil _
    rw [hparsed, hspends.dropped, hdropped]
  · intro depth r hacts hends
    have hr := hacts.sound hsound
    have hpresent := Read.present_of_endsBlock (Bool.not_eq_true _ ▸ hends)
    refine ⟨fun x r' hstatement => ?_, Read.statementOrSkip_eq _ hr hpresent.ne⟩
    exact Read.AdvancingAt.shorter hr rfl hstatement

/-- No statement starts with the first token, no block is open at the second, and the last one
opens what is never closed. -/
theorem parse_consumes_malformed :
    let source := Text.Source.ofString "= end f("
    let first := Reading.ofSource source
    first.tokens.length ≤ 7 ∧ first.Acts first ∧ Read.endsBlock first.current.kind = false ∧
      (∃ last, (Read.chunk (.upTo 7)).run first = some ((parse source).root, last)) ∧
      (Read.statementOrSkip (.upTo 7)).run first = (Read.statement (.upTo 7)).run first ∧
      (parse source).journal.consumed.map Token.kind =
        [.sign .equals, .keyword .«end», .name, .sign .openParenthesis] := by
  intro source first
  have hlen : first.tokens.length ≤ 7 := by decide +kernel
  have hends : Read.endsBlock first.current.kind = false := by decide +kernel
  obtain ⟨⟨last, hruns, -⟩, -, hstatements, -⟩ := parse_consumes source
  exact ⟨hlen, .refl first, hends, ⟨last, hruns 7 hlen⟩,
    (hstatements 7 first (.refl first) hends).2, by decide +kernel⟩

end Tree
end Syntax
end LuaFront
