import AnnotatedToC.Proofs.Tokens

/-!
# String literals of C

What is written for a string is one string literal of C, and its value is the string. The value is read
here by all the simple and octal escapes of C, of which few are ever written. Trigraphs are not
replaced.

An octal escape ends after three digits or in front of what is no octal digit, so a reader only knows
its character when it sees the next one.
-/
namespace AnnotatedToC.Syntax

open Target (octalEscape stringChar stringText)

/-! ## Values of literals -/

/-- What a backslash and one more character stand for. -/
def simpleEscape? : Char → Option Char
  | '\x27' => some '\x27'
  | '"' => some '"'
  | '?' => some '?'
  | '\\' => some '\\'
  | 'a' => some '\x07'
  | 'b' => some '\x08'
  | 'f' => some '\x0c'
  | 'n' => some '\n'
  | 'r' => some '\r'
  | 't' => some '\t'
  | 'v' => some '\x0b'
  | _ => none

/-- The value of an octal digit. -/
def octalValue (c : Char) : Nat := c.toNat - '0'.toNat

/-- The character of an octal escape. Beyond ASCII the escape is a byte, and no character. -/
def octalChar? (value : Nat) : Option Char :=
  if value < 0x80 then some (Char.ofNat value) else none

/-- What has been read of an escape: nothing outside of one, its backslash, or so many octal digits. -/
inductive Escape
  | outside
  | backslash
  | octal (digits value : Nat)

/-- A reader between the quotes of a literal, with the characters that it has read. -/
structure LiteralReader where
  chars : List Char
  escape : Escape

namespace LiteralReader

/-- A character outside of escapes. -/
def plain (chars : List Char) (c : Char) : Option LiteralReader :=
  if c = '\\' then some ⟨chars, .backslash⟩
  else if c = '"' ∨ c = '\n' then none
  else some ⟨chars ++ [c], .outside⟩

def next (r : LiteralReader) (c : Char) : Option LiteralReader :=
  match r.escape with
  | .outside => plain r.chars c
  | .backslash =>
    if isOctal c then some ⟨r.chars, .octal 1 (octalValue c)⟩
    else (simpleEscape? c).map fun d => ⟨r.chars ++ [d], .outside⟩
  | .octal digits value =>
    if digits < 3 ∧ isOctal c then some ⟨r.chars, .octal (digits + 1) (8 * value + octalValue c)⟩
    else (octalChar? value).bind fun d => plain (r.chars ++ [d]) c

/-- The characters at the closing quote. -/
def close (r : LiteralReader) : Option (List Char) :=
  match r.escape with
  | .outside => some r.chars
  | .backslash => none
  | .octal _ value => (octalChar? value).map fun d => r.chars ++ [d]

end LiteralReader

/-- The value of what stands between the quotes of a literal. -/
def unescape (body : List Char) : Option (List Char) :=
  (body.foldlM LiteralReader.next ⟨[], .outside⟩).bind LiteralReader.close

/-- Whether the character after the text is escaped. -/
def escapesNext (text : List Char) : Bool :=
  text.foldl (fun escaping c => !escaping && c == '\\') false

/-- The control characters of ASCII. -/
def IsControl (c : Char) : Prop := c.toNat < 0x20 ∨ c.toNat = 0x7F

instance : DecidablePred IsControl := fun c =>
  inferInstanceAs (Decidable (c.toNat < 0x20 ∨ c.toNat = 0x7F))

/-! ## What is written for a character -/

/-- The texts that stand for a character between the quotes of a literal, whatever comes next. -/
inductive Spelling (c : Char) : List Char → Prop
  | simple {d : Char} (hd : isOctal d = false) (hcontrol : ¬ IsControl d)
      (hc : simpleEscape? d = some c) : Spelling c ['\\', d]
  | octal {x y z : Char} (hx : isOctal x = true) (hy : isOctal y = true) (hz : isOctal z = true)
      (hc : octalChar? (8 * (8 * octalValue x + octalValue y) + octalValue z) = some c) :
      Spelling c ['\\', x, y, z]
  | plain (hbackslash : c ≠ '\\') (hquote : c ≠ '"') (hcontrol : ¬ IsControl c) : Spelling c [c]

theorem octalValue_digitChar {n : Nat} (hn : n < 8) : octalValue n.digitChar = n := by
  rw [octalValue, Nat.toNat_digitChar_of_lt_ten (by omega)]
  exact Nat.add_sub_cancel_left 48 n

theorem spelling_octalEscape {c : Char} (hc : c.toNat < 0x80) :
    Spelling c (octalEscape c.toNat) := by
  have hlow : c.toNat / 64 < 8 ∧ c.toNat / 8 % 8 < 8 ∧ c.toNat % 8 < 8 := by omega
  refine .octal (isOctal_digitChar hlow.1) (isOctal_digitChar hlow.2.1) (isOctal_digitChar hlow.2.2) ?_
  rw [octalValue_digitChar hlow.1, octalValue_digitChar hlow.2.1, octalValue_digitChar hlow.2.2,
    show 8 * (8 * (c.toNat / 64) + c.toNat / 8 % 8) + c.toNat % 8 = c.toNat by omega, octalChar?,
    if_pos hc, Char.ofNat_toNat]

theorem spelling_stringChar (c : Char) : Spelling c (stringChar c) := by
  unfold stringChar
  split
  iterate 5 exact .simple (by decide) (by decide) rfl
  · rename_i hquote hbackslash hnewline htab hreturn
    split_ifs with hcontrol
    · exact spelling_octalEscape (by omega)
    · exact .plain hbackslash hquote hcontrol

theorem isOctal_iff {c : Char} : isOctal c = true ↔ 0x30 ≤ c.toNat ∧ c.toNat ≤ 0x37 := by
  rw [isOctal, Bool.and_eq_true, decide_eq_true_iff, decide_eq_true_iff]
  exact Iff.rfl

theorem not_isControl_of_isOctal {c : Char} (h : isOctal c = true) : ¬ IsControl c := by
  rw [isOctal_iff] at h
  unfold IsControl
  omega

theorem ne_of_isOctal {c d : Char} (hc : isOctal c = true) (hd : isOctal d = false) : c ≠ d := by
  rintro rfl
  exact absurd (hc.symm.trans hd) (by decide)

namespace Spelling

variable {c : Char} {text : List Char}

theorem not_isControl (h : Spelling c text) : ∀ d ∈ text, ¬ IsControl d := by
  have hbackslash : ¬ IsControl '\\' := by decide
  cases h with
  | simple _ hd _ => simp [hbackslash, hd]
  | octal hx hy hz _ =>
    simp [hbackslash, not_isControl_of_isOctal hx, not_isControl_of_isOctal hy,
      not_isControl_of_isOctal hz]
  | plain _ _ hc => simp [hc]

/-- No escape is left open. -/
theorem escapesNext_append (h : Spelling c text) (rest : List Char) :
    escapesNext (text ++ rest) = escapesNext rest := by
  have hclosed : escapesNext text = false := by
    cases h with
    | simple => simp [escapesNext]
    | octal hx hy hz _ =>
      simp [escapesNext, ne_of_isOctal hy (d := '\\') rfl, ne_of_isOctal hz (d := '\\') rfl]
    | plain hbackslash => simp [escapesNext, hbackslash]
  rw [escapesNext, List.foldl_append, ← escapesNext, hclosed, escapesNext]

/-- A quote is only written escaped. -/
theorem escapesNext_of_quote (h : Spelling c text) {before after : List Char}
    (hsplit : text = before ++ '"' :: after) : escapesNext before = true := by
  have hmem : '"' ∈ text := by simp [hsplit]
  cases h with
  | simple =>
    -- The quote is the second of the two characters, as the first is a backslash.
    obtain _ | ⟨b, before⟩ := before
    · simp at hsplit
    · obtain ⟨rfl, hrest⟩ := List.cons.inj hsplit
      obtain ⟨rfl, -⟩ | ⟨-, hquote⟩ := List.append_eq_singleton_iff.mp hrest.symm
      · rfl
      · cases hquote
  | octal hx hy hz _ =>
    have hquote : isOctal '"' = false := rfl
    simp [(ne_of_isOctal hx hquote).symm, (ne_of_isOctal hy hquote).symm,
      (ne_of_isOctal hz hquote).symm] at hmem
  | plain _ hquote => exact absurd (List.mem_singleton.mp hmem).symm hquote

end Spelling

/-! ## What is written for a string -/

namespace LiteralReader

/-- These characters have been read, and no escape can go on. -/
def HasRead (r : LiteralReader) (cs : List Char) : Prop :=
  (r.escape = .outside ∧ r.chars = cs) ∨
    ∃ value d, r.escape = .octal 3 value ∧ octalChar? value = some d ∧ r.chars ++ [d] = cs

variable {r : LiteralReader} {cs : List Char} {c : Char}

theorem next_simple {d : Char} (hd : isOctal d = false) (hc : simpleEscape? d = some c) :
    next ⟨cs, .backslash⟩ d = some ⟨cs ++ [c], .outside⟩ := by
  simp [next, hd, hc]

theorem next_firstDigit (hc : isOctal c = true) :
    next ⟨cs, .backslash⟩ c = some ⟨cs, .octal 1 (octalValue c)⟩ := by
  simp [next, hc]

theorem next_digit {digits value : Nat} (hdigits : digits < 3) (hc : isOctal c = true) :
    next ⟨cs, .octal digits value⟩ c =
      some ⟨cs, .octal (digits + 1) (8 * value + octalValue c)⟩ := by
  simp [next, hdigits, hc]

theorem HasRead.next_eq (h : r.HasRead cs) (c : Char) : r.next c = plain cs c := by
  obtain ⟨hescape, rfl⟩ | ⟨value, d, hescape, hd, rfl⟩ := h
  · simp only [next, hescape]
  · simp [next, hescape, hd]

theorem HasRead.close_eq (h : r.HasRead cs) : r.close = some cs := by
  obtain ⟨hescape, rfl⟩ | ⟨value, d, hescape, hd, rfl⟩ := h
  · simp only [close, hescape]
  · simp [close, hescape, hd]

/-- One character is read from what is written for it, and no escape can go on after it. -/
theorem HasRead.foldlM_spelling {text : List Char} (h : r.HasRead cs) (hc : Spelling c text) :
    ∃ r', text.foldlM next r = some r' ∧ r'.HasRead (cs ++ [c]) := by
  have hescape : r.next '\\' = some ⟨cs, .backslash⟩ := h.next_eq '\\'
  cases hc with
  | simple hd _ hc =>
    refine ⟨⟨cs ++ [c], .outside⟩, ?_, .inl ⟨rfl, rfl⟩⟩
    simp [hescape, next_simple hd hc]
  | octal hx hy hz hc =>
    refine ⟨⟨cs, .octal 3 _⟩, ?_, .inr ⟨_, c, rfl, hc, rfl⟩⟩
    simp [hescape, next_firstDigit hx, next_digit _ hy, next_digit _ hz]
  | plain hbackslash hquote hcontrol =>
    have hnewline : c ≠ '\n' := by
      rintro rfl
      exact hcontrol (by decide)
    refine ⟨⟨cs ++ [c], .outside⟩, ?_, .inl ⟨rfl, rfl⟩⟩
    simp [h.next_eq, plain, hbackslash, hquote, hnewline]

theorem HasRead.foldlM_flatMap (h : r.HasRead cs) (s : List Char) :
    ∃ r', (s.flatMap stringChar).foldlM next r = some r' ∧ r'.HasRead (cs ++ s) := by
  induction s generalizing r cs with
  | nil => exact ⟨r, rfl, by rwa [List.append_nil]⟩
  | cons c s ih =>
    obtain ⟨r₁, hr₁, h₁⟩ := h.foldlM_spelling (spelling_stringChar c)
    obtain ⟨r₂, hr₂, h₂⟩ := ih h₁
    refine ⟨r₂, ?_, by rwa [List.append_cons]⟩
    rw [List.flatMap_cons, List.foldlM_append, hr₁]
    exact hr₂

end LiteralReader

theorem unescape_flatMap (s : List Char) : unescape (s.flatMap stringChar) = some s := by
  have hstart : LiteralReader.HasRead ⟨[], .outside⟩ [] := .inl ⟨rfl, rfl⟩
  obtain ⟨r, hr, hread⟩ := hstart.foldlM_flatMap s
  rw [unescape, hr, Option.bind_some, hread.close_eq, List.nil_append]

-- With fewer digits, an escape would take a digit that comes after it.
example : unescape ['\\', '1', '1'] = some ['\t'] := by decide

/-- Among the quotes after the opening one, only the closing one is not escaped. -/
theorem escapesNext_eq_false_iff {s before after : List Char}
    (h : s.flatMap stringChar ++ ['"'] = before ++ '"' :: after) :
    escapesNext before = false ↔ after = [] := by
  induction s generalizing before with
  | nil =>
    obtain ⟨rfl, hlast⟩ | ⟨-, hlast⟩ := List.append_eq_singleton_iff.mp h.symm
    · simpa [escapesNext] using hlast
    · cases hlast
  | cons c s ih =>
    have hc := spelling_stringChar c
    rw [List.flatMap_cons, List.append_assoc] at h
    -- The quote stands after what is written for the first character, or inside it.
    obtain ⟨within, rfl, hrest⟩ | ⟨within, hwithin, hrest⟩ := List.append_eq_append_iff.mp h
    · rw [hc.escapesNext_append]
      exact ih hrest
    · obtain _ | ⟨quote, within⟩ := within
      · rw [List.append_nil] at hwithin
        rw [← hwithin, ← List.append_nil (stringChar c), hc.escapesNext_append]
        exact ih hrest.symm
      · obtain ⟨rfl, rfl⟩ := List.cons.inj hrest
        rw [hc.escapesNext_of_quote hwithin]
        simp

theorem not_isControl_stringText (s : String) : ∀ c ∈ (stringText s).toList, ¬ IsControl c := by
  have hquote : ¬ IsControl '"' := by decide
  intro d hd
  simp only [stringText, String.toList_ofList, List.mem_cons, List.mem_append, List.mem_flatMap,
    List.not_mem_nil, or_false] at hd
  obtain rfl | ⟨c, -, hd⟩ | rfl := hd
  · exact hquote
  · exact (spelling_stringChar c).not_isControl d hd
  · exact hquote

theorem tokens?_stringText (s : String) : tokens? (stringText s) = some [.string s] := by
  have hlexes := Lexes.string s Lexes.nil
  rw [List.append_nil] at hlexes
  exact hlexes _ le_rfl

/-- What is written for a string is one string literal: its first quote after the opening one that is
not escaped ends it, it has no control characters, and its value is the string. -/
theorem stringText_isLiteral (s : String) :
    tokens? (stringText s) = some [.string s] ∧
      ∃ body : List Char, (stringText s).toList = '"' :: (body ++ ['"']) ∧
        (∀ before after, body ++ ['"'] = before ++ '"' :: after →
          (escapesNext before = false ↔ after = [])) ∧
        (∀ c ∈ (stringText s).toList, ¬ IsControl c) ∧
        unescape body = some s.toList := by
  refine ⟨tokens?_stringText s, s.toList.flatMap stringChar, ?_, ?_, ?_, ?_⟩
  · exact String.toList_ofList
  · exact fun _ _ => escapesNext_eq_false_iff
  · exact not_isControl_stringText s
  · exact unescape_flatMap s.toList

theorem stringText_isLiteral_quoteAfterNul :
    (stringText "\x001\"").toList = ['"', '\\', '0', '0', '0', '1', '\\', '"', '"'] ∧
      escapesNext ['\\', '0', '0', '0', '1', '\\'] = true ∧
      escapesNext ['\\', '0', '0', '0', '1', '\\', '"'] = false ∧
      unescape ['\\', '0', '0', '0', '1', '\\', '"'] = some ['\x00', '1', '"'] := by
  have htext : (stringText "\x001\"").toList = ['"', '\\', '0', '0', '0', '1', '\\', '"', '"'] := by
    decide
  obtain ⟨-, body, hbody, hquotes, -, hvalue⟩ := stringText_isLiteral "\x001\""
  have hinner : body ++ ['"'] = ['\\', '0', '0', '0', '1', '\\', '"'] ++ ['"'] :=
    (List.cons.inj (hbody.symm.trans htext)).2
  obtain rfl := List.append_cancel_right hinner
  refine ⟨htext, ?_, ?_, hvalue⟩
  · simpa using hquotes ['\\', '0', '0', '0', '1', '\\'] ['"'] rfl
  · exact (hquotes ['\\', '0', '0', '0', '1', '\\', '"'] [] rfl).mpr rfl

end AnnotatedToC.Syntax
