import AnnotatedToC.Proofs.Numerals
import AnnotatedToC.Target.Text

/-!
# Tokens of C

The text of a C function is read in tokens: words, constants, strings and marks. A token goes on as far
as it can, so it is known once it is known what the text does not go on with. Blanks only separate.
-/
namespace AnnotatedToC.Syntax

open Json (Stops stops_cons stops_nil)
open Target (Operator)

/-- The punctuation of C, as far as it is written. The mark `<=` counts as the update that it looks
like. -/
inductive Mark
  | openParen
  | closeParen
  | openBracket
  | closeBracket
  | openBrace
  | closeBrace
  | comma
  | semicolon
  | question
  | colon
  | assign
  | op (o : Operator)
  | update (o : Operator)
  deriving DecidableEq, Repr

/-- Constants are never negative: a minus in front of one is a mark. A double is given by its
magnitude. -/
inductive Token
  | word (name : String)
  | integer (n : Nat)
  | double (magnitude : Nat)
  | string (value : String)
  | mark (m : Mark)
  deriving DecidableEq, Repr

/-! ## Reading tokens -/

def isBlank (c : Char) : Bool := c == ' ' || c == '\n' || c == '\t'

/-- Letters and digits are those of ASCII, the underscore, and whatever is not ASCII. -/
def isWordChar (c : Char) : Bool := c.isAlphanum || c == '_' || decide (0x80 ≤ c.toNat)

def isWordStart (c : Char) : Bool := isWordChar c && !c.isDigit

/-- What a word or a constant would go on with. -/
def inWord (c : Char) : Bool := isWordChar c || c == '.'

/-- The constant of a numeral: an integer unless it has a fraction or an exponent. -/
def constant? (n : Json.Numeral) : Option Token :=
  if n.fraction.isNone ∧ n.exponent.isNone then some (.integer (Nat.ofDigitChars 10 n.whole 0))
  else if Double.nearestDecimal n.decimal < Double.infinity then
    some (.double (Double.nearestDecimal n.decimal))
  else none

/-- A constant ends where no word could go on. -/
def readConstant (text : List Char) : Option (Token × List Char) :=
  match Json.readNumeral .incomplete false text with
  | .ok (n, rest) => if rest.head?.any inWord then none else (constant? n).map (·, rest)
  | .error _ => none

def isOctal (c : Char) : Bool := decide ('0' ≤ c) && decide (c ≤ '7')

/-- At most so many octal digits. -/
def octalDigits : Nat → List Char → List Char × List Char
  | 0, text => ([], text)
  | _ + 1, [] => ([], [])
  | n + 1, c :: text =>
    if isOctal c then (c :: (octalDigits n text).1, (octalDigits n text).2) else ([], c :: text)

/-- The character of an escape, after its backslash. Octal escapes have up to three digits and are read
as ASCII. -/
def readEscape : List Char → Option (Char × List Char)
  | '"' :: rest => some ('"', rest)
  | '\\' :: rest => some ('\\', rest)
  | 'n' :: rest => some ('\n', rest)
  | 't' :: rest => some ('\t', rest)
  | 'r' :: rest => some ('\r', rest)
  | text =>
    let (digits, rest) := octalDigits 3 text
    let n := Nat.ofDigitChars 8 digits 0
    if digits = [] ∨ 0x80 ≤ n then none else some (Char.ofNat n, rest)

/-- The characters of a string up to its closing quote, one for each unit of fuel. -/
def readString : Nat → List Char → Option (List Char × List Char)
  | 0, _ | _ + 1, [] | _ + 1, '\n' :: _ => none
  | _ + 1, '"' :: rest => some ([], rest)
  | n + 1, '\\' :: text => do
    let (c, rest) ← readEscape text
    let (cs, rest) ← readString n rest
    return (c :: cs, rest)
  | n + 1, c :: text => do
    let (cs, rest) ← readString n text
    return (c :: cs, rest)

def Mark.ofChar? : Char → Option Mark
  | '(' => some .openParen
  | ')' => some .closeParen
  | '[' => some .openBracket
  | ']' => some .closeBracket
  | '\x7b' => some .openBrace
  | '\x7d' => some .closeBrace
  | ',' => some .comma
  | ';' => some .semicolon
  | '?' => some .question
  | ':' => some .colon
  | '=' => some .assign
  | '+' => some (.op .add)
  | '-' => some (.op .sub)
  | '*' => some (.op .mul)
  | '/' => some (.op .div)
  | '<' => some (.op .lt)
  | _ => none

/-- The characters that make another token of C with the mark, or start a comment. -/
def Mark.joins : Mark → List Char
  | .op .add => ['+']
  | .op .sub => ['-', '>']
  | .op .div => ['/', '*']
  | .op .lt => ['<', ':', '%']
  | .assign => ['=']
  | .colon => ['>']
  | _ => []

def readMark (c : Char) (text : List Char) : Option (Mark × List Char) := do
  let m ← Mark.ofChar? c
  match m, text with
  | .op o, '=' :: rest => some (.update o, rest)
  | m, rest => if rest.head?.any (· ∈ m.joins) then none else some (m, rest)

def readToken : List Char → Option (Token × List Char)
  | [] => none
  | c :: text =>
    if isWordStart c then
      some (.word (String.ofList (c :: text.takeWhile isWordChar)), text.dropWhile isWordChar)
    else if c.isDigit then readConstant (c :: text)
    else if c = '"' then do
      let (cs, rest) ← readString text.length text
      return (.string (String.ofList cs), rest)
    else do
      let (m, rest) ← readMark c text
      return (.mark m, rest)

/-- One token or blank for each unit of fuel. -/
def readTokens : Nat → List Char → Option (List Token)
  | _, [] => some []
  | 0, _ :: _ => none
  | n + 1, c :: text =>
    if isBlank c then readTokens n text
    else do
      let (t, rest) ← readToken (c :: text)
      return t :: (← readTokens n rest)

/-- The tokens of a text. -/
def tokens? (text : String) : Option (List Token) := readTokens text.toList.length text.toList

/-! ## Texts and their tokens -/

/-- The text has these tokens, whatever fuel is left over. -/
def Lexes (text : List Char) (ts : List Token) : Prop :=
  ∀ n, text.length ≤ n → readTokens n text = some ts

theorem Lexes.nil : Lexes [] [] := by
  intro n _
  cases n <;> rfl

variable {text rest : List Char} {ts : List Token}

theorem Lexes.blank {c : Char} (hc : isBlank c = true) (h : Lexes rest ts) : Lexes (c :: rest) ts := by
  intro n hn
  obtain ⟨m, rfl⟩ := Nat.exists_eq_add_of_le' hn
  rw [List.length_cons, ← Nat.add_assoc, readTokens, if_pos hc]
  exact h _ (Nat.le_add_left _ _)

theorem Lexes.blanks {bs : List Char} (hbs : ∀ c ∈ bs, isBlank c = true) (h : Lexes rest ts) :
    Lexes (bs ++ rest) ts := by
  induction bs with
  | nil => exact h
  | cons c bs ih =>
    rw [List.forall_mem_cons] at hbs
    exact .blank hbs.1 (ih hbs.2)

/-- A token is read off a text whose rest has the other tokens. -/
theorem Lexes.token {c : Char} {t : Token} (hc : isBlank c = false)
    (ht : readToken (c :: text) = some (t, rest)) (hlength : rest.length ≤ text.length)
    (h : Lexes rest ts) : Lexes (c :: text) (t :: ts) := by
  intro n hn
  obtain ⟨m, rfl⟩ := Nat.exists_eq_add_of_le' hn
  rw [List.length_cons, ← Nat.add_assoc, readTokens, if_neg (by simp [hc]), ht]
  have hrest := h (m + text.length) (by omega)
  simp only [Option.bind_eq_bind, Option.bind_some, hrest]
  rfl

theorem isBlank_eq_false_of_isWordChar {c : Char} (h : isWordChar c = true) : isBlank c = false := by
  by_contra hblank
  simp only [isBlank, Bool.not_eq_false, Bool.or_eq_true, beq_iff_eq] at hblank
  rcases hblank with (rfl | rfl) | rfl <;> exact absurd h (by decide)

/-- A word ends where the text does not go on with its characters. -/
theorem Lexes.word {c : Char} {cs : List Char} (hc : isWordStart c = true)
    (hcs : ∀ d ∈ cs, isWordChar d = true) (hrest : Stops isWordChar rest) (h : Lexes rest ts) :
    Lexes (c :: (cs ++ rest)) (.word (String.ofList (c :: cs)) :: ts) := by
  have hword : isWordChar c = true := (Bool.and_eq_true_iff.mp hc).1
  refine .token (isBlank_eq_false_of_isWordChar hword) ?_ (by simp) h
  rw [readToken, if_pos hc, Json.takeWhile_append_of_stops hcs hrest,
    Json.dropWhile_append_of_stops hcs hrest]

/-- A mark is none of the other tokens. -/
theorem Mark.ofChar?_eq_some {c : Char} {m : Mark} (h : Mark.ofChar? c = some m) :
    isBlank c = false ∧ isWordStart c = false ∧ c.isDigit = false ∧ c ≠ '"' := by
  unfold Mark.ofChar? at h
  split at h
  case h_17 => cases h
  all_goals decide

theorem readToken_mark {c : Char} {m : Mark} (hc : Mark.ofChar? c = some m) (text : List Char) :
    readToken (c :: text) = (readMark c text).map fun r => (.mark r.1, r.2) := by
  obtain ⟨-, hword, hdigit, hquote⟩ := Mark.ofChar?_eq_some hc
  rw [readToken, if_neg (by simp [hword]), if_neg (by simp [hdigit]), if_neg hquote]
  cases readMark c text <;> rfl

/-- What a mark would go on with: an operator also goes on to its update. -/
def Mark.extensions : Mark → List Char
  | .op o => '=' :: joins (.op o)
  | m => m.joins

theorem Mark.joins_subset_extensions (m : Mark) : m.joins ⊆ m.extensions := by
  cases m with
  | op o => exact List.subset_cons_self _ _
  | _ => exact List.Subset.refl _

theorem readMark_eq_some {c : Char} {m : Mark} (hc : Mark.ofChar? c = some m)
    (hrest : Stops (· ∈ m.extensions) rest) : readMark c rest = some (m, rest) := by
  have hjoins : rest.head?.any (· ∈ m.joins) = false := by
    cases rest with
    | nil => rfl
    | cons d rest =>
      rw [stops_cons, decide_eq_false_iff_not] at hrest
      exact decide_eq_false fun hmem => hrest (m.joins_subset_extensions hmem)
  rw [readMark, hc, Option.bind_eq_bind, Option.bind_some]
  split
  · rw [stops_cons] at hrest
    simp [Mark.extensions] at hrest
  · rw [hjoins]
    rfl

/-- A mark ends where the text does not go on with what would make it another one. -/
theorem Lexes.mark {c : Char} {m : Mark} (hc : Mark.ofChar? c = some m)
    (hrest : Stops (· ∈ m.extensions) rest) (h : Lexes rest ts) :
    Lexes (c :: rest) (.mark m :: ts) := by
  refine .token (Mark.ofChar?_eq_some hc).1 ?_ le_rfl h
  rw [readToken_mark hc, readMark_eq_some hc hrest]
  rfl

theorem Lexes.update {c : Char} {o : Operator} (hc : Mark.ofChar? c = some (.op o))
    (h : Lexes rest ts) : Lexes (c :: '=' :: rest) (.mark (.update o) :: ts) := by
  refine .token (Mark.ofChar?_eq_some hc).1 ?_ (by simp) h
  rw [readToken_mark hc, readMark, hc]
  rfl

/-- Nothing joins the marks that are not operators, apart from two. -/
theorem stops_nil_extensions {m : Mark} (hm : m.extensions = []) (rest : List Char) :
    Stops (· ∈ m.extensions) rest := by
  intro c _
  simp [hm]

/-! ## Constants and strings -/

theorem inWord_of_inNumeral {c : Char} (h : Json.inNumeral c = true) : inWord c = true := by
  simp only [Json.inNumeral, Bool.or_eq_true, beq_iff_eq] at h
  rcases h with ((h | rfl) | rfl) | rfl
  · simp [inWord, isWordChar, Char.isAlphanum, h]
  · decide
  · decide
  · decide

/-- A proper numeral is read as its constant. -/
theorem readConstant_text (style : NumberStyle) {n : Json.Numeral} (h : n.Proper)
    (hpositive : n.negative = false) (hrest : Stops inWord rest) :
    readConstant (n.text style ++ rest) = (constant? n).map (·, rest) := by
  have hread : Json.readNumeral .incomplete n.negative (n.text style ++ rest) = .ok (n, rest) :=
    Json.readNumeral_text style h (hrest.mono fun c => inWord_of_inNumeral)
  rw [hpositive] at hread
  have hany : rest.head?.any inWord = false := by
    cases rest with
    | nil => rfl
    | cons c rest => simpa using hrest
  rw [readConstant, hread]
  simp [hany]

/-- A text that starts with a digit is a constant. -/
theorem Lexes.constant (style : NumberStyle) {n : Json.Numeral} {t : Token} (hn : n.Proper)
    (hpositive : n.negative = false) (ht : constant? n = some t) (hrest : Stops inWord rest)
    (h : Lexes rest ts) : Lexes (n.text style ++ rest) (t :: ts) := by
  have hread := readConstant_text style hn hpositive hrest
  rw [ht, Option.map_some] at hread
  obtain ⟨c, cs, hcs⟩ := List.exists_cons_of_ne_nil hn.whole_ne_nil
  have hdigit : c.isDigit = true := hn.whole c (by simp [hcs])
  have htext : ∃ tail, n.text style ++ rest = c :: tail ∧ rest.length ≤ tail.length := by
    refine ⟨_, by rw [Json.Numeral.text, hcs]; rfl, ?_⟩
    simp only [List.append_eq, List.length_append]
    omega
  obtain ⟨tail, htail, hlength⟩ := htext
  rw [htail] at hread ⊢
  have hword : isWordChar c = true := by simp [isWordChar, Char.isAlphanum, hdigit]
  refine .token (isBlank_eq_false_of_isWordChar hword) ?_ hlength h
  rw [readToken, if_neg (by simp [isWordStart, hdigit]), if_pos hdigit, hread]

theorem Lexes.integer (n : Nat) (hrest : Stops inWord rest) (h : Lexes rest ts) :
    Lexes (Nat.toDigits 10 n ++ rest) (.integer n :: ts) := by
  have hconstant : constant? ⟨false, Nat.toDigits 10 n, none, none⟩ = some (.integer n) := by
    rw [constant?, if_pos ⟨rfl, rfl⟩, Nat.ofDigitChars_ten_toDigits]
  have hlexes := Lexes.constant .literal (Json.Numeral.proper_toDigits false n) rfl hconstant hrest h
  simpa [Json.Numeral.text] using hlexes

theorem Lexes.double (style : NumberStyle) {m : Nat} (hfinite : m < Double.infinity)
    (hrest : Stops inWord rest) (h : Lexes rest ts) :
    Lexes (style.magnitudeText m ++ rest) (.double m :: ts) := by
  obtain ⟨n, hpositive, hproper, htext, hnearest, hmark⟩ := style.exists_numeral false hfinite
  have hconstant : constant? n = some (.double m) := by
    rw [constant?, if_neg, hnearest, if_pos hfinite]
    rintro ⟨hfraction, hexponent⟩
    rw [Option.isNone_iff_eq_none] at hfraction hexponent
    simp [hfraction, hexponent] at hmark
  rw [htext]
  exact .constant style hproper hpositive hconstant hrest h

theorem octalDigits_three {a b c : Char} (ha : isOctal a = true) (hb : isOctal b = true)
    (hc : isOctal c = true) (text : List Char) :
    octalDigits 3 (a :: b :: c :: text) = ([a, b, c], text) := by
  simp [octalDigits, ha, hb, hc]

theorem isOctal_digitChar {n : Nat} (hn : n < 8) : isOctal n.digitChar = true := by
  have hall : ∀ k : Fin 8, isOctal (Nat.digitChar k) = true := by decide
  exact hall ⟨n, hn⟩

/-- An octal escape is read as the character that it stands for. -/
theorem readEscape_octal {n : Nat} (hn : n < 0x80) (text : List Char) :
    readEscape ((Target.octalEscape n).tail ++ text) = some (Char.ofNat n, text) := by
  have hlow : n / 64 < 8 ∧ n / 8 % 8 < 8 ∧ n % 8 < 8 := by omega
  have hvalue : Nat.ofDigitChars 8
      [Nat.digitChar (n / 64), Nat.digitChar (n / 8 % 8), Nat.digitChar (n % 8)] 0 = n := by
    rw [Nat.ofDigitChars_cons_digitChar_of_lt_ten (by omega),
      Nat.ofDigitChars_cons_digitChar_of_lt_ten (by omega),
      Nat.ofDigitChars_cons_digitChar_of_lt_ten (by omega), Nat.ofDigitChars_nil]
    omega
  have hoctal := isOctal_digitChar hlow.1
  change readEscape (Nat.digitChar (n / 64) :: Nat.digitChar (n / 8 % 8) ::
    Nat.digitChar (n % 8) :: text) = _
  rw [readEscape]
  · rw [octalDigits_three hoctal (isOctal_digitChar hlow.2.1) (isOctal_digitChar hlow.2.2)]
    simp only [hvalue]
    rw [if_neg (by simp; omega)]
  all_goals
    intro tail htail
    rw [List.cons.injEq] at htail
    rw [htail.1] at hoctal
    exact absurd hoctal (by decide)

theorem readString_escape {c : Char} {text rest : List Char} (n : Nat)
    (h : readEscape text = some (c, rest)) :
    readString (n + 1) ('\\' :: text) = (readString n rest).map fun r => (c :: r.1, r.2) := by
  rw [readString, h]
  cases hrest : readString n rest with
  | none => simp [hrest]
  | some r => simp [hrest]

/-- A character of a string is read back from what is written for it. -/
theorem readString_stringChar (c : Char) (n : Nat) (text : List Char) :
    readString (n + 1) (Target.stringChar c ++ text) =
      (readString n text).map fun r => (c :: r.1, r.2) := by
  unfold Target.stringChar
  split
  · exact readString_escape n rfl
  · exact readString_escape n rfl
  · exact readString_escape n rfl
  · exact readString_escape n rfl
  · exact readString_escape n rfl
  · rename_i hquote hbackslash hnewline htab hreturn
    split_ifs with hcontrol
    · have hread := readEscape_octal (n := c.toNat) (by omega) text
      rw [Char.ofNat_toNat] at hread
      exact readString_escape n hread
    · rw [List.singleton_append, readString]
      · cases readString n text <;> rfl
      · exact hnewline
      · exact hquote
      · exact hbackslash

theorem length_stringChar_pos (c : Char) : 0 < (Target.stringChar c).length := by
  unfold Target.stringChar
  split
  · decide
  · decide
  · decide
  · decide
  · decide
  · split_ifs
    · exact Nat.succ_pos 3
    · exact Nat.one_pos

theorem length_le_flatMap (cs : List Char) : cs.length ≤ (cs.flatMap Target.stringChar).length := by
  induction cs with
  | nil => exact le_rfl
  | cons c cs ih =>
    have hc := length_stringChar_pos c
    rw [List.flatMap_cons, List.length_append, List.length_cons]
    omega

theorem readString_flatMap (cs : List Char) (n : Nat) (hn : cs.length < n) (rest : List Char) :
    readString n (cs.flatMap Target.stringChar ++ '"' :: rest) = some (cs, rest) := by
  induction cs generalizing n with
  | nil =>
    obtain ⟨m, rfl⟩ := Nat.exists_eq_add_of_lt hn
    rfl
  | cons c cs ih =>
    obtain ⟨m, rfl⟩ : ∃ m, n = m + 1 := ⟨n - 1, by omega⟩
    rw [List.flatMap_cons, List.append_assoc, readString_stringChar, ih m (by simpa using hn)]
    rfl

/-- A string is read back from its text. -/
theorem Lexes.string (s : String) (h : Lexes rest ts) :
    Lexes ((Target.stringText s).toList ++ rest) (.string s :: ts) := by
  have htext : (Target.stringText s).toList ++ rest =
      '"' :: (s.toList.flatMap Target.stringChar ++ '"' :: rest) := by
    simp [Target.stringText]
  have hlength := length_le_flatMap s.toList
  rw [htext]
  refine .token (by decide) ?_ (by rw [List.length_append, List.length_cons]; omega) h
  rw [readToken, if_neg (by decide), if_neg (by decide), if_pos rfl,
    readString_flatMap _ _ (by rw [List.length_append, List.length_cons]; omega)]
  simp

end AnnotatedToC.Syntax
