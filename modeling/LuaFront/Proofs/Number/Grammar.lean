import LuaFront.Proofs.Number.Written

/-!
# LuaFront.Proofs.Number.Grammar

The grammar of numerals. A numeral is digits with an optional point, at least one digit in all, and
an optional exponent behind a letter; a hexadecimal one has `0x` in front.

* `Numeral.Form` and `Numeral.Written`: a numeral by its parts, and `Written.text`, how these are
  written.
* `Numeral.decimalFloat?_text` and `Numeral.Hexadecimal.read?_text`: a numeral is read as its parts.
* `Numeral.exists_decimal` and `Numeral.Hexadecimal.read?_eq_some`: nothing else is read.
* `Numeral.Written.value`: what a numeral stands for, an integer (`Written.isInteger`) or a float.
-/

namespace LuaFront
namespace Numeral

/-- An exponent as it is written, with its letter. -/
structure Power where
  capital : Bool
  /-- Whether its sign is a minus, if it has a sign. -/
  minus : Option Bool
  digits : List DecimalDigit
  nonempty : digits ≠ []

/-- Digits, perhaps with a point among them, and perhaps an exponent. -/
structure Form (Digit : Type) where
  whole : List Digit
  /-- The digits behind the point, if there is a point. -/
  fraction : Option (List Digit)
  power : Option Power
  nonempty : whole ++ fraction.getD [] ≠ []

/-- A numeral as it is written. -/
inductive Written where
  | decimal (x : Form DecimalDigit)
  | hexadecimal (capital : Bool) (x : Form HexDigit)

namespace Power

def sign : Option Bool → List Char
  | none => []
  | some false => ['+']
  | some true => ['-']

/-- What is written behind the letter. -/
def tail (p : Power) : List Char := sign p.minus ++ p.digits.map DecimalDigit.char

/-- What is read of it. -/
def exponent (p : Power) : Exponent := ⟨p.minus == some true, p.digits.map DecimalDigit.char⟩

end Power

namespace Form

variable {Digit : Type}

def pointed (char : Digit → Char) : Option (List Digit) → List Char
  | none => []
  | some ds => '.' :: ds.map char

def marked (mark : Char) : Option Power → List Char
  | none => []
  | some p => letter p.capital mark :: p.tail

def text (char : Digit → Char) (mark : Char) (x : Form Digit) : List Char :=
  x.whole.map char ++ (pointed char x.fraction ++ marked mark x.power)

/-- All digits, on both sides of the point. -/
def digits (x : Form Digit) : List Digit := x.whole ++ x.fraction.getD []

end Form

def Written.text : Written → List Char
  | .decimal x => x.text DecimalDigit.char 'e'
  | .hexadecimal capital x => '0' :: letter capital 'x' :: x.text HexDigit.char 'p'

/-! ## Exponents -/

theorem exponent?_tail (p : Power) : exponent? p.tail = some p.exponent := by
  obtain ⟨capital, minus, digits, nonempty⟩ := p
  obtain ⟨d, ds, rfl⟩ := List.exists_cons_of_ne_nil nonempty
  have hall : (d :: ds).map DecimalDigit.char ≠ [] ∧
      ((d :: ds).map DecimalDigit.char).all isDigit = true := by
    simp [DecimalDigit.isDigit_char]
  have hplus : d.char ≠ '+' := ne_of_class d.isDigit_char (by decide)
  have hminus : d.char ≠ '-' := ne_of_class d.isDigit_char (by decide)
  rcases minus with _ | _ | _ <;>
    simp_all [exponent?, Power.tail, Power.sign, Power.exponent]

theorem exists_tail {cs : List Char} {e : Exponent} (h : exponent? cs = some e) (capital : Bool) :
    ∃ p : Power, p.capital = capital ∧ p.tail = cs ∧ p.exponent = e := by
  have hunsigned (minus : Option Bool) {cs : List Char}
      (h : (if cs ≠ [] ∧ cs.all isDigit then some (Exponent.mk (minus == some true) cs) else none) =
        some e) :
      ∃ p : Power, p.capital = capital ∧ p.tail = Power.sign minus ++ cs ∧ p.exponent = e := by
    split at h
    next hcs =>
      cases h
      obtain ⟨ds, rfl⟩ := DecimalDigit.exists_chars (List.all_eq_true.1 hcs.2)
      exact ⟨⟨capital, minus, ds, fun hds => hcs.1 (by rw [hds]; rfl)⟩, rfl, rfl, rfl⟩
    next => cases h
  unfold exponent? at h
  split at h
  next negative digits hsplit =>
    split at hsplit
    · cases hsplit
      exact hunsigned (some true) h
    · cases hsplit
      exact hunsigned (some false) h
    · cases hsplit
      exact hunsigned none h

/-! ## Decimal numerals -/

namespace Form

theorem head_marked {mark c : Char} {p : Option Power} (h : (marked mark p).head? = some c) :
    ∃ capital, c = letter capital mark := by
  cases p with
  | none => cases h
  | some p =>
    cases h
    exact ⟨p.capital, rfl⟩

/-- The float that a decimal numeral stands for. -/
def float (x : Form DecimalDigit) : Binary64 :=
  Binary64.ofDecimal (DecimalDigit.number x.digits)
    ((x.power.map (·.exponent.value)).getD 0 - (x.fraction.getD []).length)

end Form

/-- The digits behind a point, if one comes next, and the rest. -/
def fractionDigits : List Char → List Char × List Char
  | '.' :: r => (r.takeWhile isDigit, r.dropWhile isDigit)
  | r => ([], r)

/-- A decimal numeral falls into the digits before the point, those behind it, and its exponent. -/
theorem decimalFloat?_eq (cs : List Char) : decimalFloat? cs =
    if cs.takeWhile isDigit ++ (fractionDigits (cs.dropWhile isDigit)).1 = [] then none
    else
      let value (e : Int) := Binary64.ofDecimal
        (decimalValue (cs.takeWhile isDigit ++ (fractionDigits (cs.dropWhile isDigit)).1))
        (e - (fractionDigits (cs.dropWhile isDigit)).1.length)
      match (fractionDigits (cs.dropWhile isDigit)).2 with
      | [] => some (value 0)
      | c :: r => if c = 'e' ∨ c = 'E' then (exponent? r).map fun e => value e.value else none := rfl

theorem fractionDigits_pointed (fraction : Option (List DecimalDigit)) {rest : List Char}
    (hdigit : ∀ c, rest.head? = some c → isDigit c = false) (hpoint : rest.head? ≠ some '.') :
    fractionDigits (Form.pointed DecimalDigit.char fraction ++ rest) =
      ((fraction.getD []).map DecimalDigit.char, rest) := by
  cases fraction with
  | none =>
    unfold fractionDigits
    split
    next heq => exact absurd (congrArg List.head? heq) hpoint
    next => rfl
  | some ds =>
    have hdigits : ∀ c ∈ ds.map DecimalDigit.char, isDigit c = true := by
      simp [DecimalDigit.isDigit_char]
    simp only [Form.pointed, List.cons_append, fractionDigits, takeWhile_of_stop hdigits hdigit,
      dropWhile_of_stop hdigits hdigit, Option.getD_some]

theorem exists_pointed (cs : List Char) : ∃ fraction : Option (List DecimalDigit),
    cs = Form.pointed DecimalDigit.char fraction ++ (fractionDigits cs).2 ∧
      (fractionDigits cs).1 = (fraction.getD []).map DecimalDigit.char := by
  unfold fractionDigits
  split
  next r =>
    obtain ⟨ds, hds⟩ := DecimalDigit.exists_chars
      (List.all_eq_true.1 (List.all_takeWhile (p := isDigit) (l := r)))
    refine ⟨some ds, ?_, hds.symm⟩
    rw [Form.pointed, hds, List.cons_append, List.takeWhile_append_dropWhile]
  next => exact ⟨none, rfl, rfl⟩

theorem decimalFloat?_text (x : Form DecimalDigit) :
    decimalFloat? (x.text DecimalDigit.char 'e') = some x.float := by
  obtain ⟨whole, fraction, power, nonempty⟩ := x
  have hdigits : ∀ c ∈ whole.map DecimalDigit.char, isDigit c = true := by
    simp [DecimalDigit.isDigit_char]
  have hmarked : ∀ c, (Form.marked 'e' power).head? = some c → isDigit c = false ∧ c ≠ '.' := by
    intro c hc
    obtain ⟨capital, rfl⟩ := Form.head_marked hc
    cases capital <;> decide
  have hpointed : ∀ c, (Form.pointed DecimalDigit.char fraction ++ Form.marked 'e' power).head? =
      some c → isDigit c = false := by
    cases fraction with
    | none => exact fun c hc => (hmarked c hc).1
    | some ds =>
      intro c hc
      cases hc
      decide
  have hsplit := fractionDigits_pointed fraction (fun c hc => (hmarked c hc).1)
    (fun hc => (hmarked '.' hc).2 rfl)
  have hdigit : (whole ++ fraction.getD []).map DecimalDigit.char ≠ [] := by
    rw [ne_eq, List.map_eq_nil_iff]
    exact nonempty
  rw [decimalFloat?_eq, Form.text, takeWhile_of_stop hdigits hpointed,
    dropWhile_of_stop hdigits hpointed, hsplit, ← List.map_append, if_neg hdigit,
    decimalValue_chars, List.length_map]
  cases power with
  | none => rfl
  | some p =>
    have hletter : letter p.capital 'e' = 'e' ∨ letter p.capital 'e' = 'E' := by
      cases p.capital <;> simp [letter]
    simp only [Form.marked, if_pos hletter, exponent?_tail]
    rfl

theorem exists_decimal {cs : List Char} {y : Binary64} (h : decimalFloat? cs = some y) :
    ∃ x : Form DecimalDigit, x.text DecimalDigit.char 'e' = cs := by
  obtain ⟨whole, hwhole⟩ := DecimalDigit.exists_chars
    (List.all_eq_true.1 (List.all_takeWhile (p := isDigit) (l := cs)))
  obtain ⟨fraction, hrest, hfraction⟩ := exists_pointed (cs.dropWhile isDigit)
  rw [decimalFloat?_eq] at h
  split at h
  · cases h
  next hne =>
    have nonempty : whole ++ fraction.getD [] ≠ [] := by
      intro hnil
      rw [← hwhole, hfraction, ← List.map_append, hnil] at hne
      exact hne rfl
    have htext : cs = whole.map DecimalDigit.char ++
        (Form.pointed DecimalDigit.char fraction ++ (fractionDigits (cs.dropWhile isDigit)).2) := by
      rw [← hrest, hwhole, List.takeWhile_append_dropWhile]
    split at h
    next hend =>
      rw [hend] at htext
      exact ⟨⟨whole, fraction, none, nonempty⟩, htext.symm⟩
    next c r hmark =>
      split at h
      next hletter =>
        obtain ⟨e, he, -⟩ := Option.map_eq_some_iff.1 h
        obtain ⟨capital, hcapital⟩ : ∃ capital, letter capital 'e' = c := by
          rcases hletter with rfl | rfl
          · exact ⟨false, rfl⟩
          · exact ⟨true, rfl⟩
        obtain ⟨p, hp, htail, -⟩ := exists_tail he capital
        rw [hmark] at htext
        refine ⟨⟨whole, fraction, some p, nonempty⟩, ?_⟩
        rw [htext, Form.text, Form.marked, hp, hcapital, htail]
      next => cases h

/-! ## Hexadecimal numerals -/

/-- What is read of a hexadecimal numeral. -/
def Form.parts (x : Form HexDigit) : Hexadecimal :=
  ⟨x.whole.map (·.value.val), x.fraction.map (·.map (·.value.val)), x.power.map Power.exponent⟩

namespace Hexadecimal

theorem mapM_chars (ds : List HexDigit) :
    (ds.map HexDigit.char).mapM hexDigit? = some (ds.map (·.value.val)) := by
  rw [mapM_hexDigit? (by simp [HexDigit.isHexDigit_char]), List.map_map]
  congr 2
  funext d
  simp [HexDigit.hexDigit?_char]

theorem exists_of_mapM {cs : List Char} {ns : List Nat} (h : cs.mapM hexDigit? = some ns) :
    ∃ ds : List HexDigit, ds.map HexDigit.char = cs ∧ ds.map (·.value.val) = ns := by
  have hall : ∀ c ∈ cs, isHexDigit c = true := by
    induction cs generalizing ns with
    | nil => simp
    | cons c r ih =>
      rw [List.mapM_cons] at h
      obtain ⟨n, hn, h⟩ := Option.bind_eq_some_iff.1 h
      obtain ⟨ns, hns, -⟩ := Option.bind_eq_some_iff.1 h
      rw [List.forall_mem_cons]
      exact ⟨by rw [isHexDigit, hn]; rfl, ih hns⟩
  obtain ⟨ds, rfl⟩ := HexDigit.exists_chars hall
  rw [mapM_chars] at h
  exact ⟨ds, rfl, Option.some.inj h⟩

/-- Whether a character stands in front of the exponent. -/
def isMark (c : Char) : Bool := c == 'p' || c == 'P'

/-- The digits behind the point, if there is one. -/
def fraction? : List Char → Option (Option (List Nat))
  | [] => some none
  | _ :: r => (r.mapM hexDigit?).map some

/-- The exponent behind its letter, if there is one. -/
def power? : List Char → Option (Option Exponent)
  | [] => some none
  | _ :: r => (exponent? r).map some

/-- A hexadecimal numeral falls into the digits before the point, those behind it, and its
exponent. -/
theorem read?_eq (cs : List Char) : read? cs =
    (((cs.takeWhile (!isMark ·)).takeWhile (· != '.')).mapM hexDigit?).bind fun whole =>
      (fraction? ((cs.takeWhile (!isMark ·)).dropWhile (· != '.'))).bind fun fraction =>
        if whole ++ fraction.getD [] = [] then none
        else (power? (cs.dropWhile (!isMark ·))).bind fun exponent =>
          some ⟨whole, fraction, exponent⟩ := by
  simp only [read?, isMark]
  generalize (cs.takeWhile fun c => !(c == 'p' || c == 'P')).dropWhile (· != '.') = behindPoint
  generalize cs.dropWhile (fun c => !(c == 'p' || c == 'P')) = behindDigits
  cases behindPoint <;> cases behindDigits <;> rfl

theorem fraction?_pointed (fraction : Option (List HexDigit)) :
    fraction? (Form.pointed HexDigit.char fraction) =
      some (fraction.map (·.map (·.value.val))) := by
  cases fraction with
  | none => rfl
  | some ds => rw [Form.pointed, fraction?, mapM_chars]; rfl

theorem power?_marked (power : Option Power) :
    power? (Form.marked 'p' power) = some (power.map Power.exponent) := by
  cases power with
  | none => rfl
  | some p => rw [Form.marked, power?, exponent?_tail]; rfl

theorem read?_text (x : Form HexDigit) : read? (x.text HexDigit.char 'p') = some x.parts := by
  obtain ⟨whole, fraction, power, nonempty⟩ := x
  have hdigit (d : HexDigit) : (!isMark d.char) = true ∧ (d.char != '.') = true := by
    have hmark := marks_of_class d.isHexDigit_char (x := 'p') (y := 'P') (by decide) (by decide)
    have hpoint : d.char ≠ '.' := ne_of_class d.isHexDigit_char (by decide)
    exact ⟨by rw [isMark, hmark]; rfl, by simpa using hpoint⟩
  have hmantissa : ∀ c ∈ whole.map HexDigit.char ++ Form.pointed HexDigit.char fraction,
      (!isMark c) = true := by
    intro c hc
    rcases List.mem_append.1 hc with hc | hc
    · obtain ⟨d, -, rfl⟩ := List.mem_map.1 hc
      exact (hdigit d).1
    · cases fraction with
      | none => cases hc
      | some ds =>
        rcases List.mem_cons.1 hc with rfl | hc
        · rfl
        · obtain ⟨d, -, rfl⟩ := List.mem_map.1 hc
          exact (hdigit d).1
  have hmarked : ∀ c, (Form.marked 'p' power).head? = some c → (!isMark c) = false := by
    intro c hc
    obtain ⟨capital, rfl⟩ := Form.head_marked hc
    cases capital <;> decide
  have hwhole : ∀ c ∈ whole.map HexDigit.char, (c != '.') = true := by
    simp only [List.mem_map]
    rintro _ ⟨d, -, rfl⟩
    exact (hdigit d).2
  have hpointed : ∀ c, (Form.pointed HexDigit.char fraction).head? = some c →
      (c != '.') = false := by
    intro c hc
    cases fraction with
    | none => cases hc
    | some ds =>
      cases hc
      rfl
  have hdigits : whole.map (·.value.val) ++ (fraction.map (·.map (·.value.val))).getD [] ≠ [] := by
    cases fraction <;> simpa using nonempty
  rw [Form.text, ← List.append_assoc, read?_eq, takeWhile_of_stop hmantissa hmarked,
    dropWhile_of_stop hmantissa hmarked, takeWhile_of_stop hwhole hpointed,
    dropWhile_of_stop hwhole hpointed, mapM_chars, fraction?_pointed, power?_marked]
  simp only [Option.bind_some, if_neg hdigits]
  rfl

theorem exists_pointed {cs : List Char} {fraction : Option (List Nat)}
    (hcs : ∀ c, cs.head? = some c → c = '.') (h : fraction? cs = some fraction) :
    ∃ ds : Option (List HexDigit), Form.pointed HexDigit.char ds = cs ∧
      ds.map (·.map (·.value.val)) = fraction := by
  cases cs with
  | nil =>
    cases h
    exact ⟨none, rfl, rfl⟩
  | cons c r =>
    obtain rfl := hcs c rfl
    obtain ⟨ns, hns, rfl⟩ := Option.map_eq_some_iff.1 h
    obtain ⟨ds, rfl, rfl⟩ := exists_of_mapM hns
    exact ⟨some ds, rfl, rfl⟩

theorem exists_marked {cs : List Char} {exponent : Option Exponent}
    (hcs : ∀ c, cs.head? = some c → isMark c = true) (h : power? cs = some exponent) :
    ∃ p : Option Power, Form.marked 'p' p = cs ∧ p.map Power.exponent = exponent := by
  cases cs with
  | nil =>
    cases h
    exact ⟨none, rfl, rfl⟩
  | cons c r =>
    obtain ⟨capital, hcapital⟩ : ∃ capital, letter capital 'p' = c := by
      have hc := hcs c rfl
      simp only [isMark, Bool.or_eq_true, beq_iff_eq] at hc
      rcases hc with rfl | rfl
      · exact ⟨false, rfl⟩
      · exact ⟨true, rfl⟩
    obtain ⟨e, he, rfl⟩ := Option.map_eq_some_iff.1 h
    obtain ⟨p, rfl, rfl, rfl⟩ := exists_tail he capital
    exact ⟨some p, by rw [Form.marked, hcapital], rfl⟩

/-- Exactly what is written as a hexadecimal numeral is read, as its parts. -/
theorem read?_eq_some {cs : List Char} {h : Hexadecimal} :
    read? cs = some h ↔ ∃ x : Form HexDigit, x.text HexDigit.char 'p' = cs ∧ x.parts = h := by
  constructor
  · intro hread
    rw [read?_eq] at hread
    obtain ⟨whole, hwhole, hread⟩ := Option.bind_eq_some_iff.1 hread
    obtain ⟨fraction, hfraction, hread⟩ := Option.bind_eq_some_iff.1 hread
    split at hread
    · cases hread
    next hne =>
      obtain ⟨exponent, hexponent, hread⟩ := Option.bind_eq_some_iff.1 hread
      obtain ⟨ds, hds, rfl⟩ := exists_of_mapM hwhole
      have hpoint := List.head?_dropWhile_not (· != '.') (cs.takeWhile (!isMark ·))
      obtain ⟨fs, hfs, rfl⟩ := exists_pointed
        (fun c hc => by rw [hc] at hpoint; simpa using hpoint) hfraction
      have hmark := List.head?_dropWhile_not (!isMark ·) cs
      obtain ⟨p, hp, rfl⟩ := exists_marked
        (fun c hc => by rw [hc] at hmark; simpa using hmark) hexponent
      have nonempty : ds ++ fs.getD [] ≠ [] := by
        cases fs <;> simpa using hne
      refine ⟨⟨ds, fs, p, nonempty⟩, ?_, Option.some.inj hread⟩
      rw [Form.text, hds, hfs, hp, ← List.append_assoc, List.takeWhile_append_dropWhile,
        List.takeWhile_append_dropWhile]
  · rintro ⟨x, rfl, rfl⟩
    exact read?_text x

end Hexadecimal

/-! ## Values -/

namespace Form

variable {Digit : Type} {char : Digit → Char} {mark : Char}

/-- Whether there is neither a point nor an exponent. -/
def isWhole (x : Form Digit) : Bool := x.fraction.isNone && x.power.isNone

theorem text_of_isWhole {x : Form Digit} (h : x.isWhole = true) :
    x.text char mark = x.whole.map char := by
  obtain ⟨whole, _ | _, _ | _, nonempty⟩ := x <;> simp_all [isWhole, text, pointed, marked]

theorem text_ne_nil (x : Form Digit) : x.text char mark ≠ [] := by
  obtain ⟨whole, _ | fraction, power, nonempty⟩ := x
  · have hwhole : whole ≠ [] := by simpa using nonempty
    simp [text, hwhole]
  · simp [text, pointed]

/-- A point or the letter of an exponent shows. -/
theorem all_isDigit_text (x : Form DecimalDigit) :
    (x.text DecimalDigit.char 'e').all isDigit = x.isWhole := by
  obtain ⟨whole, fraction, power, nonempty⟩ := x
  have hletter (capital : Bool) : isDigit (letter capital 'e') = false := by
    cases capital <;> decide
  have hpoint : isDigit '.' = false := by decide
  rcases fraction with _ | ds <;> rcases power with _ | p <;>
    simp [text, pointed, marked, isWhole, hletter, hpoint, DecimalDigit.isDigit_char]

end Form

namespace Written

/-- Whether a numeral stands for an integer: without point and exponent, and if it is decimal, in the
range of integers. -/
def isInteger : Written → Bool
  | .decimal x => x.isWhole && decide (DecimalDigit.number x.whole < 0x8000000000000000)
  | .hexadecimal _ x => x.isWhole

/-- What a numeral stands for. -/
def value : Written → Number
  | .decimal x =>
    if (decimal x).isInteger then .integer (Int64.ofNat (DecimalDigit.number x.whole))
    else .float x.float
  | .hexadecimal _ x => x.parts.value

theorem decimal?_text (x : Form DecimalDigit) :
    decimal? (x.text DecimalDigit.char 'e') = some (decimal x).value := by
  have hjudge : (x.text DecimalDigit.char 'e' ≠ [] ∧ (x.text DecimalDigit.char 'e').all isDigit ∧
      decimalValue (x.text DecimalDigit.char 'e') < 0x8000000000000000) ↔
        (decimal x).isInteger = true := by
    rw [x.all_isDigit_text, isInteger, Bool.and_eq_true, decide_eq_true_iff,
      and_iff_right x.text_ne_nil]
    refine and_congr_right fun hwhole => ?_
    rw [Form.text_of_isWhole hwhole, decimalValue_chars]
  rw [decimal?, decimalFloat?_text, value]
  by_cases h : (decimal x).isInteger = true
  · have hwhole : x.isWhole = true := (Bool.and_eq_true_iff.1 h).1
    rw [if_pos (hjudge.2 h), if_pos h, Form.text_of_isWhole hwhole, decimalValue_chars]
  · rw [if_neg fun hj => h (hjudge.1 hj), if_neg h]
    rfl

theorem hexadecimal?_text (capital : Bool) (x : Form HexDigit) :
    hexadecimal? (x.text HexDigit.char 'p') = some (hexadecimal capital x).value := by
  rw [hexadecimal?, Hexadecimal.read?_text]
  rfl

theorem exists_of_decimal? {cs : List Char} {n : Number} (h : decimal? cs = some n) :
    ∃ x : Form DecimalDigit, x.text DecimalDigit.char 'e' = cs := by
  rw [decimal?] at h
  split at h
  next hcs =>
    obtain ⟨ds, rfl⟩ := DecimalDigit.exists_chars (List.all_eq_true.1 hcs.2.1)
    refine ⟨⟨ds, none, none, fun hds => hcs.1 ?_⟩, Form.text_of_isWhole rfl⟩
    simpa using hds
  next =>
    obtain ⟨y, hy, -⟩ := Option.map_eq_some_iff.1 h
    exact exists_decimal hy

theorem exists_of_hexadecimal? {cs : List Char} {n : Number} (h : hexadecimal? cs = some n) :
    ∃ x : Form HexDigit, x.text HexDigit.char 'p' = cs := by
  obtain ⟨parts, hread, -⟩ := Option.map_eq_some_iff.1 h
  obtain ⟨x, hx, -⟩ := Hexadecimal.read?_eq_some.1 hread
  exact ⟨x, hx⟩

end Written
end Numeral
end LuaFront
