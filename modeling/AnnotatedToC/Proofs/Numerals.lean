import AnnotatedToC.Json.Numeral
import AnnotatedToC.Proofs.Decimals

/-!
# Reading numerals

What is written for a number is read back: digits up to the first character that is none, a fraction
after a point and an exponent after its mark. The text of a finite double is a numeral with a fraction
or an exponent whose decimal is nearest to the double.
-/
namespace AnnotatedToC

open NumberStyle (zeros)

namespace Json

/-- A text, or a list of tokens, does not go on with a member of the given kind. -/
def Stops {α : Type} (p : α → Bool) (rest : List α) : Prop := ∀ c ∈ rest.head?, p c = false

/-- A numeral would go on with these characters. -/
def inNumeral (c : Char) : Bool := c.isDigit || c == '.' || c == 'e' || c == 'E'

theorem Stops.mono {α : Type} {p q : α → Bool} {rest : List α} (h : Stops p rest)
    (hpq : ∀ c, q c = true → p c = true) : Stops q rest := by
  intro c hc
  have hp := h c hc
  cases hq : q c with
  | false => rfl
  | true =>
    rw [hpq c hq] at hp
    exact absurd hp (by simp)

@[simp] theorem stops_cons {α : Type} {p : α → Bool} {c : α} {rest : List α} :
    Stops p (c :: rest) ↔ p c = false := by
  simp [Stops]

@[simp] theorem stops_nil {α : Type} {p : α → Bool} : Stops p [] := by
  simp [Stops]

theorem takeWhile_append_of_stops {p : Char → Bool} {ds rest : List Char}
    (hds : ∀ c ∈ ds, p c = true) (hrest : Stops p rest) : (ds ++ rest).takeWhile p = ds := by
  rw [List.takeWhile_append_of_pos hds]
  cases rest with
  | nil => simp
  | cons c rest => simp [stops_cons.mp hrest]

theorem dropWhile_append_of_stops {p : Char → Bool} {ds rest : List Char}
    (hds : ∀ c ∈ ds, p c = true) (hrest : Stops p rest) : (ds ++ rest).dropWhile p = rest := by
  rw [List.dropWhile_append_of_pos hds]
  cases rest with
  | nil => rfl
  | cons c rest => simp [stops_cons.mp hrest]

variable {atEnd : Fault} {ds rest : List Char}

theorem readDigits_append (hds : ∀ c ∈ ds, c.isDigit = true) (hne : ds ≠ [])
    (hrest : Stops Char.isDigit rest) : readDigits atEnd (ds ++ rest) = .ok (ds, rest) := by
  cases ds with
  | nil => exact absurd rfl hne
  | cons c cs =>
    rw [List.forall_mem_cons] at hds
    rw [List.cons_append, readDigits, if_pos hds.1, takeWhile_append_of_stops hds.2 hrest,
      dropWhile_append_of_stops hds.2 hrest]

/-- A whole part is zero or starts with another digit. -/
theorem readWhole_append (hds : ∀ c ∈ ds, c.isDigit = true) (hne : ds ≠ [])
    (hzero : ds = ['0'] ∨ ds.head? ≠ some '0') (hrest : Stops Char.isDigit rest) :
    readWhole atEnd (ds ++ rest) = .ok (ds, rest) := by
  rcases hzero with rfl | hhead
  · cases rest with
    | nil => rfl
    | cons c rest => simp [readWhole, stops_cons.mp hrest]
  · rw [readWhole]
    · exact readDigits_append hds hne hrest
    · intro c rest' hcons
      cases ds with
      | nil => exact hne rfl
      | cons d ds =>
        rw [List.cons_append, List.cons.injEq] at hcons
        simp [hcons.1] at hhead

theorem readExponentDigits_append {negative : Bool} {n : Nat} (hrest : Stops Char.isDigit rest) :
    readExponentDigits atEnd negative (Nat.toDigits 10 n ++ rest) =
      .ok (some (if negative then -(n : Int) else n), rest) := by
  have hdigits : ∀ c ∈ Nat.toDigits 10 n, c.isDigit = true := fun c hc =>
    Nat.isDigit_of_mem_toDigits (by norm_num) (by norm_num) hc
  rw [readExponentDigits, readDigits_append hdigits Nat.toDigits_ne_nil hrest]
  change Except.ok (some (if negative then -((Nat.ofDigitChars 10 (Nat.toDigits 10 n) 0 : Nat) : Int)
    else (Nat.ofDigitChars 10 (Nat.toDigits 10 n) 0 : Nat)), rest) = _
  rw [Nat.ofDigitChars_ten_toDigits]

theorem isDigit_head_toDigits {n : Nat} {c : Char} {tail : List Char}
    (h : Nat.toDigits 10 n ++ rest = c :: tail) : c.isDigit = true := by
  cases hdigits : Nat.toDigits 10 n with
  | nil => exact absurd hdigits Nat.toDigits_ne_nil
  | cons d ds =>
    rw [hdigits, List.cons_append, List.cons.injEq] at h
    rw [← h.1]
    exact Nat.isDigit_of_mem_toDigits (by norm_num) (by norm_num) (hdigits ▸ List.mem_cons_self)

theorem readExponent_append (style : NumberStyle) (e : Int) (hrest : Stops Char.isDigit rest) :
    readExponent atEnd ('e' :: (style.exponentText e ++ rest)) = .ok (some e, rest) := by
  rw [readExponent]
  cases e with
  | negSucc k => exact readExponentDigits_append hrest
  | ofNat k =>
    have htext : style.exponentText (.ofNat k) =
        (if style.signedExponent then ['+'] else []) ++ Nat.toDigits 10 k := rfl
    rw [htext]
    by_cases hsigned : style.signedExponent
    · rw [if_pos hsigned]
      exact readExponentDigits_append hrest
    · rw [if_neg hsigned, List.nil_append, readSignedExponent]
      · exact readExponentDigits_append hrest
      · exact fun tail htail => absurd (isDigit_head_toDigits htail) (by decide)
      · exact fun tail htail => absurd (isDigit_head_toDigits htail) (by decide)

namespace Numeral

/-- The text of a numeral without its sign. -/
def text (style : NumberStyle) (n : Numeral) : List Char :=
  n.whole ++ (n.fraction.elim [] ('.' :: ·) ++ n.exponent.elim [] fun e => 'e' :: style.exponentText e)

/-- The whole part is zero or starts with another digit, and digits follow a point. -/
structure Proper (n : Numeral) : Prop where
  whole : ∀ c ∈ n.whole, c.isDigit = true
  whole_ne_nil : n.whole ≠ []
  zero : n.whole = ['0'] ∨ n.whole.head? ≠ some '0'
  fraction : ∀ ds, n.fraction = some ds → ds ≠ [] ∧ ∀ c ∈ ds, c.isDigit = true

theorem proper_toDigits (negative : Bool) (n : Nat) :
    Proper ⟨negative, Nat.toDigits 10 n, none, none⟩ := by
  refine ⟨fun c hc => Nat.isDigit_of_mem_toDigits (by norm_num) (by norm_num) hc,
    Nat.toDigits_ne_nil, ?_, by simp⟩
  by_cases hn : n = 0
  · exact .inl (by rw [hn, Nat.toDigits_zero])
  · exact .inr (Decimal.head?_toDigits_ne hn)

end Numeral

/-- A proper numeral is read back from its text. -/
theorem readNumeral_text (style : NumberStyle) {n : Numeral} (h : n.Proper)
    (hrest : Stops inNumeral rest) :
    readNumeral atEnd n.negative (n.text style ++ rest) = .ok (n, rest) := by
  obtain ⟨negative, whole, fraction, exponent⟩ := n
  have hdigit : Stops Char.isDigit rest := hrest.mono fun c hc => by simp [inNumeral, hc]
  -- what follows the fraction, and what follows the whole part
  set afterFraction := exponent.elim [] (fun e => 'e' :: style.exponentText e) ++ rest with hafter
  have hexponent : readExponent atEnd afterFraction = .ok (exponent, rest) := by
    cases exponent with
    | none =>
      rw [hafter, Option.elim_none, List.nil_append]
      cases rest with
      | nil => rfl
      | cons c rest =>
        have hc := stops_cons.mp hrest
        rw [readExponent]
        all_goals
          rintro tail ⟨⟩
          exact absurd hc (by decide)
    | some e => exact readExponent_append style e hdigit
  have hstops : Stops Char.isDigit afterFraction ∧ ∀ tail, afterFraction ≠ '.' :: tail := by
    cases exponent with
    | none =>
      refine ⟨hdigit, ?_⟩
      rintro tail htail
      rw [hafter, Option.elim_none, List.nil_append] at htail
      rw [htail, stops_cons] at hrest
      exact absurd hrest (by decide)
    | some e =>
      refine ⟨by simp [hafter], ?_⟩
      rintro tail htail
      simp [hafter] at htail
  have hfraction : readFraction atEnd (fraction.elim [] ('.' :: ·) ++ afterFraction) =
      .ok (fraction, afterFraction) := by
    cases fraction with
    | none =>
      rw [Option.elim_none, List.nil_append, readFraction]
      exact hstops.2
    | some ds =>
      obtain ⟨hne, hds⟩ := h.fraction ds rfl
      rw [Option.elim_some, List.cons_append, readFraction, readDigits_append hds hne hstops.1]
      rfl
  have hwhole : readWhole atEnd (whole ++ (fraction.elim [] ('.' :: ·) ++ afterFraction)) =
      .ok (whole, fraction.elim [] ('.' :: ·) ++ afterFraction) := by
    refine readWhole_append h.whole h.whole_ne_nil h.zero ?_
    cases fraction with
    | none => exact hstops.1
    | some ds => simp
  rw [Numeral.text, List.append_assoc, List.append_assoc, ← hafter, readNumeral]
  simp only [hwhole, hfraction, hexponent, bind, Except.bind, pure, Except.pure]

end Json

namespace Decimal

/-- The digits of a number other than zero, without zeros at either end. -/
structure Normal (d : Decimal) : Prop where
  trimmed : Trimmed d.digits
  ne_nil : d.digits ≠ []
  isDigit : ∀ c ∈ d.digits, c.isDigit = true

theorem isDigit_zeros (n : Nat) : ∀ c ∈ zeros n, c.isDigit = true := by
  intro c hc
  rw [List.eq_of_mem_replicate hc]
  decide

/-- The decimal of digits that are split by a point, with zeros around them. -/
theorem Normal.decimal_eq {d : Decimal} (h : d.Normal) {n : Json.Numeral} {a b : Nat}
    (hdigits : n.whole ++ n.fraction.getD [] = zeros a ++ d.digits ++ zeros b)
    (hpoint : (n.whole.length : Int) + n.exponent.getD 0 - a = d.point) : n.decimal = d := by
  rw [Json.Numeral.decimal, hdigits, ofDigits_zeros_append h.trimmed h.ne_nil, hpoint]

theorem Normal.head?_ne {d : Decimal} (h : d.Normal) {whole rest : List Char} (hne : whole ≠ [])
    (hwhole : d.digits = whole ++ rest) : whole.head? ≠ some '0' := by
  have hhead := h.trimmed.1
  rwa [hwhole, List.head?_append_of_ne_nil _ hne] at hhead

/-- Digits of the decimal around a point, filled up with zeros on either side. -/
theorem Normal.fixed {d : Decimal} (h : d.Normal) (style : NumberStyle) (negative : Bool)
    {whole fraction : List Char} (hwhole : ∀ c ∈ whole, c.isDigit = true) (hne : whole ≠ [])
    (hzero : whole = ['0'] ∨ whole.head? ≠ some '0')
    (hfraction : ∀ c ∈ fraction, c.isDigit = true) (hfractionNe : fraction ≠ []) {a b : Nat}
    (hdigits : whole ++ fraction = zeros a ++ d.digits ++ zeros b)
    (hpoint : (whole.length : Int) - a = d.point) :
    ∃ n : Json.Numeral, n.negative = negative ∧ n.Proper ∧
      whole ++ '.' :: fraction = n.text style ∧ n.decimal = d ∧ n.fraction.isSome = true := by
  refine ⟨⟨negative, whole, some fraction, none⟩, rfl, ⟨hwhole, hne, hzero, ?_⟩,
    by simp [Json.Numeral.text], h.decimal_eq hdigits (by simpa using hpoint), rfl⟩
  rintro ds ⟨⟩
  exact ⟨hfractionNe, hfraction⟩

/-- The text with a plain point is a numeral with a fraction. -/
theorem Normal.plain {d : Decimal} (h : d.Normal) (style : NumberStyle) (negative : Bool) :
    ∃ n : Json.Numeral, n.negative = negative ∧ n.Proper ∧
      NumberStyle.plain d.digits d.point = n.text style ∧ n.decimal = d ∧ n.fraction.isSome = true := by
  have hzero : ∀ c ∈ ['0'], c.isDigit = true := List.forall_mem_singleton.mpr rfl
  match hpoint : d.point with
  | .negSucc k =>
    refine h.fixed style negative hzero (by simp) (.inl rfl)
      (List.forall_mem_append.mpr ⟨isDigit_zeros (k + 1), h.isDigit⟩) (by simp [h.ne_nil])
      (a := k + 2) (b := 0) ?_ ?_
    · simp [zeros, List.replicate_succ]
    · rw [hpoint, List.length_singleton]
      omega
  | .ofNat 0 =>
    exact h.fixed style negative hzero (by simp) (.inl rfl) h.isDigit h.ne_nil (a := 1) (b := 0)
      (by simp [zeros]) (by simp [hpoint])
  | .ofNat (p + 1) =>
    have htext : NumberStyle.plain d.digits (.ofNat (p + 1)) =
        if d.digits.length ≤ p + 1 then (d.digits ++ zeros (p + 1 - d.digits.length)) ++ ['.', '0']
        else d.digits.take (p + 1) ++ '.' :: d.digits.drop (p + 1) := rfl
    rw [htext]
    split_ifs with hlength
    · refine h.fixed style negative (List.forall_mem_append.mpr ⟨h.isDigit, isDigit_zeros _⟩)
        (by simp [h.ne_nil]) (.inr ?_) hzero (by simp) (a := 0)
        (b := p + 1 - d.digits.length + 1) ?_ ?_
      · rw [List.head?_append_of_ne_nil _ h.ne_nil]
        exact h.trimmed.1
      · simp [zeros, List.replicate_succ']
      · rw [hpoint, Int.ofNat_eq_natCast]
        simp only [zeros, List.length_append, List.length_replicate]
        omega
    · have htake : d.digits.take (p + 1) ≠ [] := by simp [h.ne_nil]
      have hdrop : d.digits.drop (p + 1) ≠ [] := by
        rw [ne_eq, List.drop_eq_nil_iff]
        omega
      have hsplit : d.digits = d.digits.take (p + 1) ++ d.digits.drop (p + 1) :=
        (List.take_append_drop _ _).symm
      refine h.fixed style negative (fun c hc => h.isDigit c (List.mem_of_mem_take hc)) htake
        (.inr (h.head?_ne htake hsplit)) (fun c hc => h.isDigit c (List.mem_of_mem_drop hc)) hdrop
        (a := 0) (b := 0) (by simp [zeros]) ?_
      rw [hpoint, Int.ofNat_eq_natCast]
      simp only [List.length_take]
      omega

/-- The text with an exponent is a numeral with an exponent. -/
theorem Normal.scientific {d : Decimal} (h : d.Normal) (style : NumberStyle) (negative : Bool) :
    ∃ n : Json.Numeral, n.negative = negative ∧ n.Proper ∧
      style.scientific d.digits (d.point - 1) = n.text style ∧ n.decimal = d ∧
        n.exponent.isSome = true := by
  obtain ⟨digits, point⟩ := d
  match digits, h with
  | [], h => exact absurd rfl h.ne_nil
  | [c], h =>
    refine ⟨⟨negative, [c], none, some (point - 1)⟩, rfl,
      ⟨h.isDigit, by simp, .inr h.trimmed.1, by simp⟩, rfl,
      h.decimal_eq (a := 0) (b := 0) (by simp [zeros]) ?_, rfl⟩
    simp
  | c :: c' :: cs, h =>
    have hdigit := h.isDigit
    rw [List.forall_mem_cons] at hdigit
    refine ⟨⟨negative, [c], some (c' :: cs), some (point - 1)⟩, rfl,
      ⟨by simpa using hdigit.1, by simp, .inr h.trimmed.1, ?_⟩,
      by simp [NumberStyle.scientific, Json.Numeral.text],
      h.decimal_eq (a := 0) (b := 0) (by simp [zeros]) ?_, rfl⟩
    · rintro ds ⟨⟩
      exact ⟨by simp, hdigit.2⟩
    · simp

/-- The digits of an integer that is not zero. -/
theorem normal_ofScientific {n : Nat} {e : Int} (h : (ofScientific n e).coefficient ≠ 0) :
    (ofScientific n e).Normal := by
  obtain ⟨htrimmed, a, b, hds, -⟩ := ofDigits_spec (Nat.toDigits 10 n)
    (e + (Nat.toDigits 10 n).length)
  refine ⟨htrimmed, ?_, ?_⟩
  · intro hnil
    exact h (by rw [coefficient, hnil]; rfl)
  · intro c hc
    refine Nat.isDigit_of_mem_toDigits (b := 10) (n := n) (by norm_num) (by norm_num) ?_
    rw [hds]
    exact List.mem_append_left _ (List.mem_append_right _ hc)

end Decimal

theorem intText_eq (n : Int) :
    Decimal.intText n =
      if decide (n < 0) then '-' :: Nat.toDigits 10 n.natAbs else Nat.toDigits 10 n.natAbs := by
  cases n with
  | ofNat n => simp [Decimal.intText]
  | negSucc n => simp [Decimal.intText, Int.negSucc_lt_zero]

/-- The text of a finite magnitude is a numeral with a fraction or an exponent, and the magnitude is the
nearest one to its decimal. -/
theorem NumberStyle.exists_numeral (style : NumberStyle) (negative : Bool) {m : Nat}
    (hfinite : m < Double.infinity) :
    ∃ n : Json.Numeral, n.negative = negative ∧ n.Proper ∧ style.magnitudeText m = n.text style ∧
      Double.nearestDecimal n.decimal = m ∧ (n.fraction.isSome = true ∨ n.exponent.isSome = true) := by
  rw [magnitudeText]
  split_ifs with hm
  · have hzero : ∀ c ∈ ['0'], c.isDigit = true := List.forall_mem_singleton.mpr rfl
    refine ⟨⟨negative, ['0'], some ['0'], none⟩, rfl, ⟨hzero, by simp, .inl rfl, ?_⟩, rfl, ?_,
      .inl rfl⟩
    · rintro ds ⟨⟩
      exact ⟨by simp, hzero⟩
    · rw [hm]
      rfl
  · obtain ⟨⟨k, e, hshortest⟩, hnearest⟩ := Decimal.shortest_spec style.tie hm hfinite
    have hnormal : (Decimal.shortest style.tie m).Normal := by
      rw [hshortest]
      apply Decimal.normal_ofScientific
      intro hzero
      rw [hshortest, Double.nearestDecimal, if_pos (.inl hzero)] at hnearest
      exact hm hnearest.symm
    rw [decimalText]
    split_ifs
    · obtain ⟨n, hnegative, hproper, htext, hdecimal, hfraction⟩ := hnormal.plain style negative
      exact ⟨n, hnegative, hproper, htext, by rw [hdecimal, hnearest], .inl hfraction⟩
    · obtain ⟨n, hnegative, hproper, htext, hdecimal, hexponent⟩ := hnormal.scientific style negative
      exact ⟨n, hnegative, hproper, htext, by rw [hdecimal, hnearest], .inr hexponent⟩

end AnnotatedToC
