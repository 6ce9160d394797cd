import LuaFront.Proofs.Number.Digits
import LuaFront.Proofs.Syntax.Spelling

/-!
# LuaFront.Proofs.Syntax.OneLine

Labels of nodes are written on one line each, though strings of any contents are shown in them:
what would end the line is escaped in a string, and cannot be in a name.

* `OneLine.literal`: values.
* `Node.Worded.oneLine`: labels of nodes whose names are words.
* `Tree.parse_oneLine`: labels of the nodes of a tree, whatever the text was.
-/

namespace LuaFront

/-- A text without a line feed. -/
def OneLine (s : String) : Prop := '\n' ∉ s.toList

instance (s : String) : Decidable (OneLine s) := inferInstanceAs (Decidable ('\n' ∉ s.toList))

@[simp] theorem oneLine_append {s t : String} : OneLine (s ++ t) ↔ OneLine s ∧ OneLine t := by
  simp [OneLine]

@[simp] theorem oneLine_ofList {cs : List Char} : OneLine (String.ofList cs) ↔ '\n' ∉ cs := by
  simp [OneLine]

namespace OneLine

theorem intercalate {separator : String} {texts : List String} (hs : OneLine separator)
    (h : ∀ t ∈ texts, OneLine t) : OneLine (separator.intercalate texts) := by
  rw [OneLine, String.toList_intercalate]
  induction texts with
  | nil => simp
  | cons first later ih =>
    obtain ⟨hfirst, hlater⟩ := List.forall_mem_cons.1 h
    cases later with
    | nil => simpa [OneLine] using hfirst
    | cons => simpa using ⟨hfirst, hs, by simpa using ih hlater⟩

/-! ## Numbers -/

theorem toDigits (n : Nat) : '\n' ∉ Nat.toDigits 10 n := fun h =>
  absurd (Numeral.isDigit_of_mem_toDigits h) (by decide)

theorem nat (n : Nat) : OneLine (toString n) := by
  change OneLine (String.ofList (Nat.toDigits 10 n))
  exact oneLine_ofList.2 (toDigits n)

theorem int (n : Int) : OneLine (toString n) := by
  cases n with
  | ofNat n => exact nat n
  | negSucc n =>
    change OneLine ("-" ++ toString (n + 1))
    exact oneLine_append.2 ⟨by decide, nat _⟩

/-- Digits are found on a grid of decimals, and zeros are dropped behind them. -/
theorem search (i : Binary64.Interval) (k : Int) (steps count : Nat) :
    '\n' ∉ (i.search k steps count).digits := by
  induction steps generalizing count with
  | zero => exact toDigits _
  | succ steps ih =>
    rw [Binary64.Interval.search]
    split
    next d _ =>
      intro h
      have hsuffix := List.dropWhile_suffix (· == '0') (l := (Nat.toDigits 10 d).reverse)
      exact toDigits d (List.mem_reverse.1 (hsuffix.subset (List.mem_reverse.1 h)))
    next => exact ih _

theorem decimal {d : Binary64.Decimal} (h : '\n' ∉ d.digits) : OneLine d.render := by
  obtain ⟨digits, exponent⟩ := d
  have hzeros (n : Nat) : '\n' ∉ List.replicate n '0' := by simp [List.mem_replicate]
  have htake (n : Nat) : '\n' ∉ digits.take n := fun hmem => h (List.mem_of_mem_take hmem)
  have hdrop (n : Nat) : '\n' ∉ digits.drop n := fun hmem => h (List.mem_of_mem_drop hmem)
  simp only [Binary64.Decimal.render]
  split
  · refine oneLine_append.2 ⟨oneLine_append.2 ⟨oneLine_ofList.2 ?_, by decide⟩, int _⟩
    split
    · simp_all
    · exact h
  split
  · simp [OneLine, hzeros, h]
  split
  · simp [OneLine, hzeros, h]
  · simp [OneLine, htake, hdrop]

theorem float (x : Binary64) : OneLine x.render := by
  have hshortest : OneLine x.shortest.render := decimal (search _ _ _ _)
  rw [Binary64.render]
  split
  · decide
  · refine oneLine_append.2 ⟨?_, ?_⟩
    · split <;> decide
    split
    · decide
    split
    · decide
    · exact hshortest

theorem number (n : Number) : OneLine n.render := by
  cases n with
  | integer n => exact int _
  | float x => exact float x

/-! ## Strings -/

theorem codePoint (c : Char) : '\n' ∉ Text.Quoted.codePoint c := by
  have hdigits : '\n' ∉ Nat.toDigits 16 c.toNat := fun h => by
    have hhex : '\n' ∈ Numeral.hexDigits false c.toNat := List.mem_map.2 ⟨_, h, rfl⟩
    exact absurd (Numeral.isHexDigit_of_mem_hexDigits hhex) (by decide)
  simp [Text.Quoted.codePoint, hdigits]

/-- No character is shown as a line feed, not even the line feed. -/
theorem escape (quotes : List Char) (c : Char) : '\n' ∉ Text.Quoted.escape quotes c := by
  unfold Text.Quoted.escape
  split
  · simp
  split
  · simp
  split
  · simp
  split
  · simp
  next hfeed =>
    have hc : '\n' ∉ [c] := fun h => hfeed (List.mem_singleton.1 h).symm
    split
    · exact List.not_mem_cons_of_ne_of_not_mem (by decide) hc
    split
    · exact hc
    · exact codePoint c

theorem bytes (bs : List UInt8) : OneLine (Text.Quoted.bytes bs) := by
  refine oneLine_ofList.2 ?_
  simp [escape]

theorem literal (value : Syntax.Literal) : OneLine value.render := by
  cases value with
  | nil => decide
  | «true» => decide
  | «false» => decide
  | number n => exact number n
  | string bs => exact bytes bs

end OneLine

namespace Syntax

/-! ## Labels -/

theorem Name.IsWord.oneLine {n : Name} (h : n.IsWord) : OneLine n.text := fun hmem =>
  absurd (h _ hmem) (by decide)

theorem BinaryOperator.oneLine (o : BinaryOperator) : OneLine o.spelling := by
  cases o <;> decide

theorem UnaryOperator.oneLine (o : UnaryOperator) : OneLine o.spelling := by
  cases o <;> decide

/-- What comes with an optional name only comes with a word. -/
theorem oneLine_optional {n? : Option Name} (h : ∀ n ∈ n?.toList, n.IsWord) {f : Name → String}
    (hf : ∀ n, OneLine n.text → OneLine (f n)) : OneLine ((n?.map f).getD "") := by
  cases n? with
  | none =>
    change OneLine ""
    decide
  | some n => exact hf n (h n (by simp)).oneLine

theorem FunctionName.oneLine {f : FunctionName} (h : ∀ n ∈ f.names, n.IsWord) :
    OneLine f.render := by
  obtain ⟨hpath, hmethod⟩ := List.forall_mem_append.1 h
  refine oneLine_append.2 ⟨?_, oneLine_optional hmethod fun n hn => ?_⟩
  · refine .intercalate (by decide) fun t ht => ?_
    obtain ⟨n, hn, rfl⟩ := List.mem_map.1 ht
    exact (hpath n hn).oneLine
  · exact oneLine_append.2 ⟨by decide, hn⟩

theorem LocalDeclaration.oneLine {d : LocalDeclaration} (h : ∀ n ∈ d.names, n.IsWord) :
    OneLine d.title := by
  obtain ⟨hname, hattrib⟩ := List.forall_mem_cons.1 h
  refine oneLine_append.2 ⟨?_, oneLine_optional hattrib fun n hn => ?_⟩
  · exact oneLine_append.2 ⟨by decide, hname.oneLine⟩
  · exact oneLine_append.2 ⟨oneLine_append.2 ⟨by decide, hn⟩, by decide⟩

theorem Statement.title_oneLine (s : Statement) : OneLine s.title := by
  unfold title
  split <;> decide

theorem Expression.title_oneLine {e : Expression} (h : ∀ n ∈ e.names, OneLine n.text) :
    OneLine e.title := by
  unfold title
  split
  next value _ => exact oneLine_append.2 ⟨by decide, .literal value⟩
  · decide
  · decide
  · decide
  next o _ _ => exact oneLine_append.2 ⟨by decide, o.oneLine⟩
  next o _ _ => exact oneLine_append.2 ⟨by decide, o.oneLine⟩
  · decide
  next n _ _ => exact oneLine_append.2 ⟨by decide, h n (by simp [names])⟩
  · decide
  next n => exact oneLine_append.2 ⟨by decide, h n (by simp [names])⟩
  · decide
  next n _ => exact oneLine_append.2 ⟨by decide, h n (by simp [names])⟩

theorem Field.title_oneLine {f : Field} (h : ∀ n ∈ f.names, OneLine n.text) :
    OneLine f.title := by
  unfold title
  split
  · decide
  next n _ _ => exact oneLine_append.2 ⟨by decide, h n (by simp [names])⟩
  · decide

namespace Node.Worded

variable {n : Node}

theorem title_oneLine (h : n.Worded) : OneLine n.title := by
  have hnames : ∀ m ∈ n.names, OneLine m.text := fun m hm => (h m hm).oneLine
  cases n with
  | statement s => exact s.title_oneLine
  | expression e => exact Expression.title_oneLine hnames
  | field f => exact Field.title_oneLine hnames
  | functionName f => exact oneLine_append.2 ⟨by decide, FunctionName.oneLine h⟩
  | declaration d => exact LocalDeclaration.oneLine h
  | name n => exact oneLine_append.2 ⟨by decide, hnames n (by simp [names])⟩
  | functionBody f =>
    rw [title]
    split <;> decide
  | _ =>
    rw [title]
    decide

theorem oneLine (h : n.Worded) : OneLine n.label := by
  have hspan : OneLine n.span.render :=
    oneLine_append.2 ⟨oneLine_append.2 ⟨.nat _, by decide⟩, .nat _⟩
  exact oneLine_append.2 ⟨oneLine_append.2 ⟨h.title_oneLine, by decide⟩, hspan⟩

end Node.Worded

/-- No label of a tree ends its line, whatever the text was. -/
theorem Tree.parse_oneLine (source : Text.Source) :
    (Node.chunk (parse source).root).Everywhere fun n => OneLine n.label :=
  (parse_worded source).imp fun _ h => h.oneLine

end Syntax
end LuaFront
