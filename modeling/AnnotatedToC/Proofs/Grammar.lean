import AnnotatedToC.Proofs.Written

/-!
# The grammar of C expressions

Tokens are read as C reads them. Subscripts and calls bind tightest, then the minus in front, then
multiplication and division, addition and subtraction, comparison, and last the conditional. Operators
of one level are joined from left to right. The tree of what is read has no negative constants.
-/
namespace AnnotatedToC.Syntax

open Json (Stops stops_cons stops_nil)
open Target (Operator Ty)

/-- An expression of C. -/
inductive Expr
  | name (x : String)
  | integer (n : Nat)
  | double (magnitude : Nat)
  | string (value : String)
  | neg (operand : Expr)
  | binary (op : Operator) (left right : Expr)
  | index (base index : Expr)
  | call (callee : Expr) (args : List Expr)
  | ternary (cond thenExpr elseExpr : Expr)
  | compound (ty : Ty) (elements : List Expr)

/-- Reads the start of a list of tokens and gives back the rest. -/
abbrev Reader (α : Type) := List Token → Option (α × List Token)

/-- The levels of the binary operators, the tightest first. -/
def levels : List (List Operator) := [[.mul, .div], [.add, .sub], [.lt]]

/-- Joins operands from left to right wherever an operator of the level stands between them. -/
def joinLevel (level : List Operator) (e : Expr) :
    List (Operator × Expr) → Expr × List (Operator × Expr)
  | [] => (e, [])
  | (op, operand) :: rest =>
    if op ∈ level then joinLevel level (.binary op e operand) rest
    else
      let joined := joinLevel level operand rest
      (e, (op, joined.1) :: joined.2)

/-- Operands with operators between them as one expression. -/
def join (e : Expr) (rest : List (Operator × Expr)) : Expr :=
  (levels.foldl (fun p level => joinLevel level p.1 p.2) (e, rest)).1

def pointers (ty : Ty) : List Token → Ty × List Token
  | .mark (.op .mul) :: ts => pointers (.pointer ty) ts
  | ts => (ty, ts)

def baseType? (word : String) : Option Ty :=
  if word = "int" then some .int
  else if word = "double" then some .double
  else if word = "void" then some .void
  else if word = "TUPLE" then some .tuple
  else none

def readType : Reader Ty
  | .word word :: ts => (baseType? word).map fun ty => pointers ty ts
  | _ => none

/-- The type of a compound literal, after its first parenthesis, if there is one. -/
def compoundType? (ts : List Token) : Option (Ty × List Token) :=
  match readType ts with
  | some (ty, .mark .closeParen :: .mark .openBrace :: rest) => some (ty, rest)
  | _ => none

/-- The rest after a mark that has to come next. -/
def expect (m : Mark) : List Token → Option (List Token)
  | .mark m' :: ts => if m' = m then some ts else none
  | _ => none

mutual

/-- A conditional expression. -/
def readExpr : Nat → Reader Expr
  | 0, _ => none
  | n + 1, ts => do
    let (e, ts) ← readUnary n ts
    let (operands, ts) ← readOperands n ts
    match ts with
    | .mark .question :: ts => do
      let (thenExpr, ts) ← readExpr n ts
      let ts ← expect .colon ts
      let (elseExpr, ts) ← readExpr n ts
      return (.ternary (join e operands) thenExpr elseExpr, ts)
    | ts => return (join e operands, ts)

def readOperands : Nat → Reader (List (Operator × Expr))
  | 0, _ => none
  | n + 1, .mark (.op o) :: ts => do
    let (e, ts) ← readUnary n ts
    let (operands, ts) ← readOperands n ts
    return ((o, e) :: operands, ts)
  | _ + 1, ts => return ([], ts)

def readUnary : Nat → Reader Expr
  | 0, _ => none
  | n + 1, .mark (.op .sub) :: ts => do
    let (e, ts) ← readUnary n ts
    return (.neg e, ts)
  | n + 1, ts => do
    let (e, ts) ← readPrimary n ts
    readSuffixes n e ts

/-- Subscripts and calls. -/
def readSuffixes : Nat → Expr → Reader Expr
  | 0, _, _ => none
  | n + 1, e, .mark .openBracket :: ts => do
    let (index, ts) ← readExpr n ts
    let ts ← expect .closeBracket ts
    readSuffixes n (.index e index) ts
  | n + 1, e, .mark .openParen :: ts => do
    let (args, ts) ← readList n .closeParen ts
    readSuffixes n (.call e args) ts
  | _ + 1, e, ts => return (e, ts)

def readPrimary : Nat → Reader Expr
  | 0, _ => none
  | _ + 1, .word x :: ts => if x ∈ keywords then none else return (.name x, ts)
  | _ + 1, .integer k :: ts => return (.integer k, ts)
  | _ + 1, .double m :: ts => return (.double m, ts)
  | _ + 1, .string s :: ts => return (.string s, ts)
  | n + 1, .mark .openParen :: ts =>
    match compoundType? ts with
    | some (ty, ts) => do
      let (elements, ts) ← readList n .closeBrace ts
      return (.compound ty elements, ts)
    | none => do
      let (e, ts) ← readExpr n ts
      return (e, ← expect .closeParen ts)
  | _ + 1, _ => none

/-- Expressions with commas between them, up to a closing mark. -/
def readList : Nat → Mark → Reader (List Expr)
  | 0, _, _ => none
  | n + 1, closing, ts =>
    match expect closing ts with
    | some ts => return ([], ts)
    | none => readItems n closing ts

def readItems : Nat → Mark → Reader (List Expr)
  | 0, _, _ => none
  | n + 1, closing, ts => do
    let (e, ts) ← readExpr n ts
    match ts with
    | .mark .comma :: ts => do
      let (es, ts) ← readItems n closing ts
      return (e :: es, ts)
    | ts => return ([e], ← expect closing ts)

end

/-- The expression that a text is. -/
def parse (text : String) : Option Expr := do
  let ts ← tokens? text
  match ← readExpr (8 * ts.length + 8) ts with
  | (e, []) => some e
  | _ => none

/-! ## Steps of the reader -/

@[simp] theorem expect_self (m : Mark) (ts : List Token) : expect m (.mark m :: ts) = some ts := by
  simp [expect]

theorem join_single (op : Operator) (left right : Expr) :
    join left [(op, right)] = .binary op left right := by
  cases op <;> rfl

def Token.isSuffix : Token → Bool
  | .mark .openBracket | .mark .openParen => true
  | _ => false

/-- What an expression would go on with. -/
def Token.continues : Token → Bool
  | .mark (.op _) | .mark .question => true
  | t => t.isSuffix

variable {n : Nat} {e left right : Expr} {ts us vs rest : List Token}

theorem stops_isSuffix (h : Stops Token.continues rest) : Stops Token.isSuffix rest :=
  h.mono fun t ht => by
    unfold Token.isSuffix at ht
    split at ht
    · rfl
    · rfl
    · cases ht

theorem readSuffixes_of_stops (h : Stops Token.isSuffix rest) :
    readSuffixes (n + 1) e rest = some (e, rest) := by
  rw [readSuffixes.eq_def]
  split
  · omega
  · simp [Token.isSuffix] at h
  · simp [Token.isSuffix] at h
  · rfl

theorem readOperands_of_stops (h : Stops Token.continues rest) :
    readOperands (n + 1) rest = some ([], rest) := by
  rw [readOperands.eq_def]
  split
  · omega
  · simp [Token.continues] at h
  · rfl

/-- Operands up to where the expression ends are joined. -/
theorem readExpr_join {operands : List (Operator × Expr)} (he : readUnary n ts = some (e, us))
    (hoperands : readOperands n us = some (operands, rest)) (h : Stops Token.continues rest) :
    readExpr (n + 1) ts = some (join e operands, rest) := by
  simp only [readExpr, he, hoperands, Option.bind_eq_bind, Option.bind_some]
  split
  · simp [Token.continues] at h
  · rfl

theorem readExpr_operand (he : readUnary (n + 1) ts = some (e, rest))
    (h : Stops Token.continues rest) : readExpr (n + 2) ts = some (e, rest) :=
  readExpr_join he (readOperands_of_stops h) h

theorem readExpr_binary {op : Operator}
    (hleft : readUnary (n + 2) ts = some (left, .mark (.op op) :: us))
    (hright : readUnary (n + 1) us = some (right, rest)) (h : Stops Token.continues rest) :
    readExpr (n + 3) ts = some (.binary op left right, rest) := by
  have hoperands : readOperands (n + 2) (.mark (.op op) :: us) = some ([(op, right)], rest) := by
    simp only [readOperands, hright, readOperands_of_stops h, Option.bind_eq_bind, Option.bind_some]
    rfl
  rw [← join_single]
  exact readExpr_join hleft hoperands h

theorem readExpr_ternary {cond thenExpr elseExpr : Expr}
    (hcond : readUnary (n + 1) ts = some (cond, .mark .question :: us))
    (hthen : readExpr (n + 1) us = some (thenExpr, .mark .colon :: vs))
    (helse : readExpr (n + 1) vs = some (elseExpr, rest)) :
    readExpr (n + 2) ts = some (.ternary cond thenExpr elseExpr, rest) := by
  have hoperands : readOperands (n + 1) (.mark .question :: us) = some ([], .mark .question :: us) := by
    simp [readOperands]
  rw [readExpr]
  simp only [hcond, hoperands, hthen, helse, expect_self, Option.bind_eq_bind, Option.bind_some]
  rfl

theorem readUnary_neg (he : readUnary n ts = some (e, rest)) :
    readUnary (n + 1) (.mark (.op .sub) :: ts) = some (.neg e, rest) := by
  rw [readUnary, he]
  rfl

theorem readUnary_primary (hts : ts.head? ≠ some (.mark (.op .sub)))
    (he : readPrimary n ts = some (e, us)) : readUnary (n + 1) ts = readSuffixes n e us := by
  rw [readUnary, he]
  · rfl
  · rintro vs rfl
    simp at hts

theorem readSuffixes_index {base index : Expr}
    (hindex : readExpr n ts = some (index, .mark .closeBracket :: rest)) :
    readSuffixes (n + 1) base (.mark .openBracket :: ts) =
      readSuffixes n (.index base index) rest := by
  rw [readSuffixes, hindex]
  simp [expect_self]

theorem readSuffixes_call {callee : Expr} {args : List Expr}
    (hargs : readList n .closeParen ts = some (args, rest)) :
    readSuffixes (n + 1) callee (.mark .openParen :: ts) =
      readSuffixes n (.call callee args) rest := by
  rw [readSuffixes, hargs]
  rfl

theorem readPrimary_paren (hts : compoundType? ts = none)
    (he : readExpr n ts = some (e, .mark .closeParen :: rest)) :
    readPrimary (n + 1) (.mark .openParen :: ts) = some (e, rest) := by
  rw [readPrimary, hts]
  simp only [he, expect_self, Option.bind_eq_bind, Option.bind_some]
  rfl

theorem readPrimary_compound {ty : Ty} {elements : List Expr} (hts : compoundType? ts = some (ty, us))
    (helements : readList n .closeBrace us = some (elements, rest)) :
    readPrimary (n + 1) (.mark .openParen :: ts) = some (.compound ty elements, rest) := by
  rw [readPrimary, hts]
  simp only [helements, Option.bind_eq_bind, Option.bind_some]
  rfl

theorem readItems_cons {closing : Mark} {es : List Expr}
    (he : readExpr n ts = some (e, .mark .comma :: us))
    (hes : readItems n closing us = some (es, rest)) :
    readItems (n + 1) closing ts = some (e :: es, rest) := by
  rw [readItems, he]
  simp only [hes, Option.bind_eq_bind, Option.bind_some]
  rfl

theorem readItems_single {closing : Mark} (hclosing : closing ≠ .comma)
    (he : readExpr n ts = some (e, .mark closing :: rest)) :
    readItems (n + 1) closing ts = some ([e], rest) := by
  rw [readItems, he]
  simp only [Option.bind_eq_bind, Option.bind_some]
  split
  · rename_i heq
    simp only [List.cons.injEq, Token.mark.injEq] at heq
    exact absurd heq.1 hclosing
  · simp

theorem readList_items {closing : Mark} {es : List Expr} (hts : expect closing ts = none)
    (hes : readItems n closing ts = some (es, rest)) :
    readList (n + 1) closing ts = some (es, rest) := by
  rw [readList, hts]
  exact hes

theorem readList_nil {closing : Mark} :
    readList (n + 1) closing (.mark closing :: rest) = some ([], rest) := by
  rw [readList, expect_self]
  rfl

/-- No expression starts with a keyword. -/
theorem readExpr_keyword {x : String} (hx : x ∈ keywords) : readExpr n (.word x :: ts) = none := by
  have hprimary : ∀ n, readPrimary n (.word x :: ts) = none := by
    intro n
    cases n with
    | zero => rfl
    | succ n => rw [readPrimary, if_pos hx]
  have hunary : ∀ n, readUnary n (.word x :: ts) = none := by
    intro n
    cases n with
    | zero => rfl
    | succ n =>
      rw [readUnary, hprimary]
      · rfl
      · simp
  cases n with
  | zero => rfl
  | succ n =>
    rw [readExpr, hunary]
    rfl

/-! ## Types -/

theorem readType_tokens (ty : Ty) (ts : List Token) :
    readType (ty.tokens ++ ts) = some (pointers ty ts) := by
  induction ty generalizing ts with
  | int => rfl
  | double => rfl
  | void => rfl
  | tuple => rfl
  | pointer element ih =>
    rw [Ty.tokens, List.append_assoc, ih]
    rfl

theorem compoundType?_tokens (ty : Ty) (ts : List Token) :
    compoundType? (ty.tokens ++ .mark .closeParen :: .mark .openBrace :: ts) = some (ty, ts) := by
  rw [compoundType?, readType_tokens]
  rfl

end AnnotatedToC.Syntax
