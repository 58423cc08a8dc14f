import AnnotatedToC.Proofs.Tokens
import AnnotatedToC.Proofs.Trees
import AnnotatedToC.Target.Lines

/-!
# The tokens of expressions

Types, literals and expressions as tokens. Their texts are read as these tokens: names are words, and
wherever two words or constants meet there is something between them.
-/
namespace AnnotatedToC

open Json (Stops stops_cons stops_nil)

namespace Syntax

def keywords : List String := [
  "auto", "break", "case", "char", "const", "continue", "default", "do", "double", "else", "enum",
  "extern", "float", "for", "goto", "if", "inline", "int", "long", "register", "restrict", "return",
  "short", "signed", "sizeof", "static", "struct", "switch", "typedef", "union", "unsigned", "void",
  "volatile", "while", "_Alignas", "_Alignof", "_Atomic", "_Bool", "_Complex", "_Generic",
  "_Imaginary", "_Noreturn", "_Static_assert", "_Thread_local"]

def isWord (s : String) : Bool :=
  match s.toList with
  | [] => false
  | c :: cs => isWordStart c && cs.all isWordChar

/-- An identifier of C other than its keywords and the names of what is not finite. -/
def isIdentifier (s : String) : Bool :=
  isWord s && decide (s ∉ keywords) && decide (s ≠ "NAN") && decide (s ≠ "INFINITY")

theorem isWord_of_isIdentifier {s : String} (h : isIdentifier s = true) : isWord s = true := by
  simp only [isIdentifier, Bool.and_eq_true] at h
  exact h.1.1.1

theorem notMem_keywords_of_isIdentifier {s : String} (h : isIdentifier s = true) : s ∉ keywords := by
  simp only [isIdentifier, Bool.and_eq_true, decide_eq_true_eq] at h
  exact h.1.1.2

theorem ne_of_isIdentifier {s : String} (h : isIdentifier s = true) : s ≠ "NAN" ∧ s ≠ "INFINITY" := by
  simp only [isIdentifier, Bool.and_eq_true, decide_eq_true_eq] at h
  exact ⟨h.1.2, h.2⟩

/-- A text that starts with a character of words. -/
def StartsWord (text : List Char) : Prop := ∃ c cs, text = c :: cs ∧ isWordChar c = true

theorem startsWord_of_isWord {s : String} (h : isWord s = true) : StartsWord s.toList := by
  unfold isWord at h
  split at h
  · cases h
  · rename_i c cs hcs
    simp only [isWordStart, Bool.and_eq_true] at h
    exact ⟨c, cs, hcs, h.1.1⟩

theorem startsWord_of_isDigit {text : List Char} (hne : text ≠ [])
    (h : ∀ c ∈ text, c.isDigit = true) : StartsWord text := by
  obtain ⟨c, cs, rfl⟩ := List.exists_cons_of_ne_nil hne
  exact ⟨c, cs, rfl, by simp [isWordChar, Char.isAlphanum, h c List.mem_cons_self]⟩

theorem StartsWord.append {text : List Char} (h : StartsWord text) (rest : List Char) :
    StartsWord (text ++ rest) := by
  obtain ⟨c, cs, rfl, hc⟩ := h
  exact ⟨c, cs ++ rest, rfl, hc⟩

/-- Marks do not go on with words. -/
theorem StartsWord.stops {text : List Char} (h : StartsWord text) (marks : List Char)
    (hmarks : marks.any isWordChar = false) : Stops (· ∈ marks) text := by
  obtain ⟨c, cs, rfl, hc⟩ := h
  rw [stops_cons, decide_eq_false_iff_not]
  intro hmem
  exact List.any_eq_false.mp hmarks c hmem hc

variable {rest : List Char} {ts : List Token}

theorem Lexes.name {s : String} (hs : isWord s = true) (hrest : Stops isWordChar rest)
    (h : Lexes rest ts) : Lexes (s.toList ++ rest) (.word s :: ts) := by
  unfold isWord at hs
  split at hs
  · cases hs
  · rename_i c cs hcs
    rw [Bool.and_eq_true, List.all_eq_true] at hs
    have hlexes := h.word hs.1 hs.2 hrest
    rw [← hcs, String.ofList_toList] at hlexes
    rwa [hcs]

theorem Lexes.space (h : Lexes rest ts) : Lexes (' ' :: rest) ts := .blank rfl h

/-- Marks that nothing joins. -/
theorem Lexes.bracket {c : Char} {m : Mark} (hc : Mark.ofChar? c = some m)
    (hm : m.extensions = []) (h : Lexes rest ts) : Lexes (c :: rest) (.mark m :: ts) :=
  .mark hc (stops_nil_extensions hm rest) h

end Syntax

open Syntax

namespace Target

/-! ## Expressions as tokens -/

def Ty.tokens : Ty → List Token
  | .int => [.word "int"]
  | .double => [.word "double"]
  | .void => [.word "void"]
  | .pointer element => element.tokens ++ [.mark (.op .mul)]
  | .tuple => [.word "TUPLE"]

def signed (negative : Bool) (t : Token) : List Token :=
  if negative then [.mark (.op .sub), t] else [t]

def Literal.isNegative : Literal → Bool
  | .int value => decide (value.toInt < 0)
  | .float value => !value.isNaN && value.isNegative
  | .bool _ | .str _ => false

/-- The literal without its sign. -/
def Literal.constant : Literal → Token
  | .int value => .integer value.toInt.natAbs
  | .float value =>
    if value.isNaN then .word "NAN"
    else if value.isFinite then .double value.magnitude
    else .word "INFINITY"
  | .bool value => .integer value.toNat
  | .str value => .string value

def Literal.tokens (value : Literal) : List Token := signed value.isNegative value.constant

/-- Tokens in a pair of marks. -/
def enclosed (opening closing : Mark) (ts : List Token) : List Token :=
  .mark opening :: (ts ++ [.mark closing])

def Expr.operandTokens (e : Expr) (ts : List Token) : List Token :=
  if e.isAtom then ts else enclosed .openParen .closeParen ts

def separated : List (List Token) → List Token
  | [] => []
  | [ts] => ts
  | ts :: us :: rest => ts ++ .mark .comma :: separated (us :: rest)

mutual

def Expr.tokens : Expr → List Token
  | .identifier name => [.word name]
  | .literal value => value.tokens
  | .binary op left right =>
    left.operandTokens left.tokens ++ .mark (.op op) :: right.operandTokens right.tokens
  | .index base index =>
    base.operandTokens base.tokens ++ enclosed .openBracket .closeBracket index.tokens
  | .call callee args =>
    .word callee :: enclosed .openParen .closeParen (separated (tokensOf args))
  | .ternary cond thenExpr elseExpr =>
    cond.operandTokens cond.tokens ++ .mark .question ::
      (thenExpr.operandTokens thenExpr.tokens ++ .mark .colon ::
        elseExpr.operandTokens elseExpr.tokens)
  | .compound ty elements =>
    enclosed .openParen .closeParen ty.tokens ++
      enclosed .openBrace .closeBrace (separated (tokensOf elements))

def tokensOf : List Expr → List (List Token)
  | [] => []
  | e :: es => e.tokens :: tokensOf es

end

mutual

/-- The names of variables and functions. -/
def Expr.names : Expr → List String
  | .identifier name => [name]
  | .literal _ => []
  | .binary _ left right => left.names ++ right.names
  | .index base index => base.names ++ index.names
  | .call callee args => callee :: namesOf args
  | .ternary cond thenExpr elseExpr => cond.names ++ (thenExpr.names ++ elseExpr.names)
  | .compound _ elements => namesOf elements

def namesOf : List Expr → List String
  | [] => []
  | e :: es => e.names ++ namesOf es

end

end Target

/-! ## Expressions are read as their tokens -/

section Lexing

variable {rest : List Char} {ts : List Token}

/-- A type ends in a word or a star, and only a word can go on with a name. -/
theorem Target.Ty.lexes (ty : Target.Ty)
    (hrest : if ty.isPointer then Stops (· ∈ ['=']) rest else Stops isWordChar rest)
    (h : Lexes rest ts) : Lexes (ty.text.toList ++ rest) (ty.tokens ++ ts) := by
  induction ty generalizing rest ts with
  | int => exact Lexes.name (s := "int") (by decide) hrest h
  | double => exact Lexes.name (s := "double") (by decide) hrest h
  | void => exact Lexes.name (s := "void") (by decide) hrest h
  | tuple => exact Lexes.name (s := "TUPLE") (by decide) hrest h
  | pointer element ih =>
    have hstar : Lexes ('*' :: rest) (.mark (.op .mul) :: ts) := .mark rfl hrest h
    rw [Target.Ty.text, Target.Ty.tokens, List.append_assoc, List.singleton_append]
    by_cases hpointer : element.isPointer
    · rw [if_pos hpointer, String.toList_append, List.append_assoc]
      exact ih (by rw [if_pos hpointer]; exact stops_cons.mpr rfl) hstar
    · rw [if_neg hpointer, String.toList_append, List.append_assoc]
      exact ih (by rw [if_neg hpointer]; exact stops_cons.mpr rfl) (.space hstar)

theorem Target.Ty.lexes_declarator (ty : Target.Ty) {name : String} (hname : isWord name = true)
    (hrest : Stops isWordChar rest) (h : Lexes rest ts) :
    Lexes ((ty.declarator name).toList ++ rest) (ty.tokens ++ .word name :: ts) := by
  have hlexes : Lexes (name.toList ++ rest) (.word name :: ts) := .name hname hrest h
  rw [Target.Ty.declarator]
  split_ifs with hpointer
  · rw [String.toList_append, List.append_assoc]
    refine ty.lexes ?_ hlexes
    rw [if_pos hpointer]
    exact ((startsWord_of_isWord hname).append rest).stops _ rfl
  · rw [String.toList_append, String.toList_append, List.append_assoc, List.append_assoc]
    refine ty.lexes ?_ (.space hlexes)
    rw [if_neg hpointer]
    exact stops_cons.mpr rfl

/-- A constant with its sign. -/
theorem Syntax.Lexes.signed (negative : Bool) {text : List Char} {t : Token}
    (hstart : StartsWord text) (h : Lexes (text ++ rest) (t :: ts)) :
    Lexes ((if negative then '-' :: text else text) ++ rest) (Target.signed negative t ++ ts) := by
  cases negative with
  | false => exact h
  | true => exact .mark rfl ((hstart.append rest).stops _ rfl) h

theorem startsWord_magnitudeText (style : NumberStyle) {m : Nat} (hfinite : m < Double.infinity) :
    StartsWord (style.magnitudeText m) := by
  obtain ⟨n, -, hproper, htext, -⟩ := style.exists_numeral false hfinite
  rw [htext, Json.Numeral.text]
  exact (startsWord_of_isDigit hproper.whole_ne_nil hproper.whole).append _

theorem lexes_doubleText (d : Double) (hrest : Stops inWord rest) (h : Lexes rest ts) :
    Lexes ((Target.doubleText d).toList ++ rest) ((Target.Literal.float d).tokens ++ ts) := by
  have hword : Stops isWordChar rest := hrest.mono fun c hc => by simp [inWord, hc]
  rw [Target.doubleText, Target.Literal.tokens, Target.Literal.isNegative, Target.Literal.constant]
  by_cases hnan : d.isNaN
  · rw [if_pos hnan, if_pos hnan, hnan]
    exact .name (s := "NAN") (by decide) hword h
  rw [if_neg hnan, if_neg hnan, Bool.eq_false_of_not_eq_true hnan]
  by_cases hfinite : d.isFinite
  · have hlt : d.magnitude < Double.infinity := of_decide_eq_true hfinite
    rw [if_pos hfinite, if_pos hfinite, String.toList_ofList, NumberStyle.text]
    exact .signed d.isNegative (startsWord_magnitudeText _ hlt) (.double _ hlt hrest h)
  · rw [if_neg hfinite, if_neg hfinite]
    have hlexes : Lexes ((if d.isNegative then '-' :: "INFINITY".toList else "INFINITY".toList) ++
        rest) (Target.signed d.isNegative (.word "INFINITY") ++ ts) :=
      .signed d.isNegative (startsWord_of_isWord (by decide)) (.name (by decide) hword h)
    cases hnegative : d.isNegative with
    | false => rwa [hnegative] at hlexes
    | true => rwa [hnegative] at hlexes

theorem Target.Literal.lexes (value : Target.Literal) (hrest : Stops inWord rest)
    (h : Lexes rest ts) : Lexes (value.text.toList ++ rest) (value.tokens ++ ts) := by
  cases value with
  | int value =>
    rw [Target.Literal.text, String.toList_ofList, intText_eq]
    exact .signed _ (startsWord_of_isDigit Nat.toDigits_ne_nil fun c hc =>
      Nat.isDigit_of_mem_toDigits (by norm_num) (by norm_num) hc) (.integer _ hrest h)
  | float value => exact lexes_doubleText value hrest h
  | bool value =>
    cases value with
    | false => exact .integer 0 hrest h
    | true => exact .integer 1 hrest h
  | str value => exact .string value h

/-- The expression is read as its tokens wherever neither a word nor a constant goes on. -/
def Target.Expr.Lexed (e : Target.Expr) : Prop :=
  ∀ rest ts, Stops inWord rest → Lexes rest ts → Lexes (e.text.toList ++ rest) (e.tokens ++ ts)

theorem Target.Expr.Lexed.operand {e : Target.Expr} (he : e.Lexed) (hrest : Stops inWord rest)
    (h : Lexes rest ts) :
    Lexes ((e.operand e.text).toList ++ rest) (e.operandTokens e.tokens ++ ts) := by
  rw [Target.Expr.operand, Target.Expr.operandTokens]
  split_ifs
  · exact he rest ts hrest h
  · have hclose : Lexes (')' :: rest) (.mark .closeParen :: ts) := .bracket rfl rfl h
    have hinner := he _ _ (stops_cons.mpr rfl) hclose
    have hopen : Lexes ('(' :: (e.text.toList ++ ')' :: rest))
        (.mark .openParen :: (e.tokens ++ .mark .closeParen :: ts)) := .bracket rfl rfl hinner
    simpa [Target.enclosed] using hopen

/-- Expressions with commas between them, up to a mark that nothing joins. -/
theorem lexes_intercalate {es : List Target.Expr} (hes : ∀ e ∈ es, e.Lexed)
    (hrest : Stops inWord rest) (h : Lexes rest ts) :
    Lexes ((", ".intercalate (Target.texts es)).toList ++ rest)
      (Target.separated (Target.tokensOf es) ++ ts) := by
  induction es with
  | nil => simpa [Target.texts, Target.tokensOf, Target.separated] using h
  | cons e es ih =>
    rw [List.forall_mem_cons] at hes
    cases es with
    | nil =>
      simpa [Target.texts, Target.tokensOf, Target.separated] using hes.1 rest ts hrest h
    | cons e' es =>
      have hcomma := Lexes.bracket (c := ',') rfl rfl (ih hes.2).space
      have hfirst := hes.1 _ _ (stops_cons.mpr rfl) hcomma
      simpa [Target.texts, Target.tokensOf, Target.separated, String.intercalate_cons_cons]
        using hfirst

theorem lexes_op (o : Target.Operator) (h : Lexes rest ts) :
    Lexes (o.symbol.toList ++ ' ' :: rest) (.mark (.op o) :: ts) := by
  cases o <;> exact .mark rfl (stops_cons.mpr rfl) h.space

theorem stops_isWordChar (hrest : Stops inWord rest) : Stops isWordChar rest :=
  hrest.mono fun c hc => by simp [inWord, hc]

theorem Target.mem_namesOf {es : List Target.Expr} {x : String} :
    x ∈ Target.namesOf es ↔ ∃ e ∈ es, x ∈ e.names := by
  induction es with
  | nil => simp [Target.namesOf]
  | cons e es ih => simp [Target.namesOf, ih]

/-- The text of an expression is read as its tokens. -/
theorem Target.Expr.lexed (e : Target.Expr) (hnames : ∀ x ∈ e.names, isWord x = true) : e.Lexed := by
  induction e with
  | identifier name =>
    intro rest ts hrest h
    exact .name (hnames name (by simp [Target.Expr.names])) (stops_isWordChar hrest) h
  | literal value =>
    intro rest ts hrest h
    exact value.lexes hrest h
  | binary op left right ihl ihr =>
    intro rest ts hrest h
    rw [Target.Expr.names, List.forall_mem_append] at hnames
    have hright := lexes_op op ((ihr hnames.2).operand hrest h)
    have hleft := (ihl hnames.1).operand (stops_cons.mpr rfl) hright.space
    simpa [Target.Expr.text, Target.Expr.tokens] using hleft
  | index base index ihb ihi =>
    intro rest ts hrest h
    rw [Target.Expr.names, List.forall_mem_append] at hnames
    have hclose : Lexes (']' :: rest) (.mark .closeBracket :: ts) := .bracket rfl rfl h
    have hindex := ihi hnames.2 _ _ (stops_cons.mpr rfl) hclose
    have hopen := Lexes.bracket (c := '[') rfl rfl hindex
    have hbase := (ihb hnames.1).operand (stops_cons.mpr rfl) hopen
    simpa [Target.Expr.text, Target.Expr.tokens, Target.enclosed] using hbase
  | call callee args ih =>
    intro rest ts hrest h
    rw [Target.Expr.names, List.forall_mem_cons] at hnames
    have hargs : ∀ e ∈ args, e.Lexed := fun e he =>
      ih e he fun x hx => hnames.2 x (Target.mem_namesOf.mpr ⟨e, he, hx⟩)
    have hclose : Lexes (')' :: rest) (.mark .closeParen :: ts) := .bracket rfl rfl h
    have hlist := lexes_intercalate hargs (stops_cons.mpr rfl) hclose
    have hopen := Lexes.bracket (c := '(') rfl rfl hlist
    have hcall := Lexes.name hnames.1 (stops_cons.mpr rfl) hopen
    simpa [Target.Expr.text, Target.Expr.tokens, Target.enclosed] using hcall
  | ternary cond thenExpr elseExpr ihc iht ihe =>
    intro rest ts hrest h
    rw [Target.Expr.names, List.forall_mem_append, List.forall_mem_append] at hnames
    have helse := (ihe hnames.2.2).operand hrest h
    have hcolon := Lexes.mark (c := ':') rfl (stops_cons.mpr rfl) helse.space
    have hthen := (iht hnames.2.1).operand (stops_cons.mpr rfl) hcolon.space
    have hquestion := Lexes.bracket (c := '?') rfl rfl hthen.space
    have hcond := (ihc hnames.1).operand (stops_cons.mpr rfl) hquestion.space
    simpa [Target.Expr.text, Target.Expr.tokens] using hcond
  | compound ty elements ih =>
    intro rest ts hrest h
    have helements : ∀ e ∈ elements, e.Lexed := fun e he =>
      ih e he fun x hx => hnames x (Target.mem_namesOf.mpr ⟨e, he, hx⟩)
    have hclose : Lexes ('\x7d' :: rest) (.mark .closeBrace :: ts) := .bracket rfl rfl h
    have hlist := lexes_intercalate helements (stops_cons.mpr rfl) hclose
    have hopen := Lexes.bracket (c := '\x7b') rfl rfl hlist
    have hparen := Lexes.bracket (c := ')') rfl rfl hopen
    have hty := ty.lexes (by split_ifs <;> exact stops_cons.mpr rfl) hparen
    have hcast := Lexes.bracket (c := '(') rfl rfl hty
    simpa [Target.Expr.text, Target.Expr.tokens, Target.enclosed] using hcast

end Lexing

end AnnotatedToC
