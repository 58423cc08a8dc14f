import AnnotatedToC.Proofs.Grammar

/-!
# What expressions are read as

An expression that is written is read as a tree of the same shape, but for minus signs. The minus of a
negative literal binds less tightly than a subscript, so it moves out of the bases in which it stands.
-/
namespace AnnotatedToC

open Json (Stops stops_cons stops_nil)
open Syntax

def Syntax.Expr.negated (negative : Bool) (e : Syntax.Expr) : Syntax.Expr :=
  if negative then .neg e else e

namespace Target

def Literal.unsigned : Literal → Syntax.Expr
  | .int value => .integer value.toInt.natAbs
  | .float value =>
    if value.isNaN then .name "NAN"
    else if value.isFinite then .double value.magnitude
    else .name "INFINITY"
  | .bool value => .integer value.toNat
  | .str value => .string value

/-- The expression starts with the minus of a literal. -/
def Expr.isNegated : Expr → Bool
  | .literal value => value.isNegative
  | .index base _ => base.isNegated
  | _ => false

mutual

/-- What the expression is read as, without the minus that it starts with. -/
def Expr.unsigned : Expr → Syntax.Expr
  | .identifier name => .name name
  | .literal value => value.unsigned
  | .binary op left right =>
    .binary op (.negated left.isNegated left.unsigned) (.negated right.isNegated right.unsigned)
  | .index base index => .index base.unsigned (.negated index.isNegated index.unsigned)
  | .call callee args => .call (.name callee) (treesOf args)
  | .ternary cond thenExpr elseExpr =>
    .ternary (.negated cond.isNegated cond.unsigned)
      (.negated thenExpr.isNegated thenExpr.unsigned)
      (.negated elseExpr.isNegated elseExpr.unsigned)
  | .compound ty elements => .compound ty (treesOf elements)

def treesOf : List Expr → List Syntax.Expr
  | [] => []
  | e :: es => .negated e.isNegated e.unsigned :: treesOf es

end

/-- What the expression is read as. -/
def Expr.tree (e : Expr) : Syntax.Expr := .negated e.isNegated e.unsigned

theorem treesOf_cons (e : Expr) (es : List Expr) : treesOf (e :: es) = e.tree :: treesOf es := rfl

theorem Expr.tree_binary (op : Operator) (left right : Expr) :
    (Expr.binary op left right).tree = .binary op left.tree right.tree := rfl

theorem Expr.tree_index {base : Expr} (hbase : base.isNegated = false) (index : Expr) :
    (Expr.index base index).tree = .index base.tree index.tree := by
  rw [tree, isNegated, tree, hbase]
  rfl

/-- The minus is read on the whole subscript. -/
theorem Expr.tree_index_of_isNegated {base : Expr} (hbase : base.isNegated = true) (index : Expr) :
    (Expr.index base index).tree = .neg (.index base.unsigned index.tree) := by
  rw [tree, isNegated, hbase]
  rfl

theorem Expr.tree_call (callee : String) (args : List Expr) :
    (Expr.call callee args).tree = .call (.name callee) (treesOf args) := rfl

theorem Expr.tree_ternary (cond thenExpr elseExpr : Expr) :
    (Expr.ternary cond thenExpr elseExpr).tree = .ternary cond.tree thenExpr.tree elseExpr.tree := rfl

theorem Expr.tree_compound (ty : Ty) (elements : List Expr) :
    (Expr.compound ty elements).tree = .compound ty (treesOf elements) := rfl

theorem Expr.isNegated_of_not_isAtom {e : Expr} (h : e.isAtom = false) : e.isNegated = false := by
  cases e with
  | identifier _ | literal _ | index _ _ | call _ _ => cases h
  | binary _ _ _ | ternary _ _ _ | compound _ _ => rfl

end Target

/-! ## How operands start -/

namespace Syntax

/-- Tokens that an operand can start with. -/
def Token.starts : Token → Bool
  | .mark .openParen | .mark (.op .sub) => true
  | .mark _ => false
  | _ => true

def Starts (ts : List Token) : Prop := ∃ t us, ts = t :: us ∧ t.starts = true

theorem Starts.append {ts : List Token} (h : Starts ts) (rest : List Token) : Starts (ts ++ rest) := by
  obtain ⟨t, us, rfl, ht⟩ := h
  exact ⟨t, us ++ rest, rfl, ht⟩

/-- Behind a word, these tokens do not make it the type of a compound literal. -/
def EndsType (ts : List Token) : Prop := ∀ ty, (pointers ty ts).2.head? ≠ some (.mark .closeParen)

theorem compoundType?_word {ts : List Token} (h : EndsType ts) (x : String) :
    compoundType? (.word x :: ts) = none := by
  rw [compoundType?, readType]
  cases baseType? x with
  | none => rfl
  | some ty =>
    have hty := h ty
    split
    · rename_i heq
      rw [Option.map_some, Option.some.injEq] at heq
      simp [heq] at hty
    · rfl

theorem endsType_cons {t : Token} {ts : List Token} (hstar : t ≠ .mark (.op .mul))
    (hclose : t ≠ .mark .closeParen) : EndsType (t :: ts) := by
  intro ty
  rw [pointers]
  · simpa using hclose
  · rintro us ⟨⟩
    exact hstar rfl

theorem endsType_op (op : Target.Operator) {ts : List Token} (h : Starts ts) :
    EndsType (.mark (.op op) :: ts) := by
  by_cases hop : op = .mul
  · obtain ⟨t, us, rfl, ht⟩ := h
    intro ty
    subst hop
    rw [pointers]
    exact endsType_cons (by rintro rfl; cases ht) (by rintro rfl; cases ht) _
  · exact endsType_cons (by simpa using hop) (by simp)

end Syntax

theorem Target.starts_signed (negative : Bool) {t : Token} (ht : t.starts = true) :
    Starts (Target.signed negative t) := by
  cases negative with
  | false => exact ⟨t, [], rfl, ht⟩
  | true => exact ⟨.mark (.op .sub), [t], rfl, rfl⟩

theorem Target.Literal.starts_constant (value : Target.Literal) : value.constant.starts = true := by
  cases value with
  | float value =>
    rw [Target.Literal.constant]
    split_ifs <;> rfl
  | int _ | bool _ | str _ => rfl

theorem Target.Expr.starts_operand {e : Target.Expr} (h : Starts e.tokens) :
    Starts (e.operandTokens e.tokens) := by
  rw [Target.Expr.operandTokens]
  split_ifs
  · exact h
  · exact ⟨.mark .openParen, _, rfl, rfl⟩

theorem Target.Expr.starts (e : Target.Expr) : Starts e.tokens := by
  induction e with
  | identifier name => exact ⟨_, [], rfl, rfl⟩
  | literal value => exact starts_signed _ value.starts_constant
  | binary op left right ihl _ => exact (starts_operand ihl).append _
  | index base index ihb _ => exact (starts_operand ihb).append _
  | call callee args _ => exact ⟨_, _, rfl, rfl⟩
  | ternary cond thenExpr elseExpr ihc _ _ => exact (starts_operand ihc).append _
  | compound ty elements _ => exact ⟨.mark .openParen, _, rfl, rfl⟩

theorem Target.Literal.compoundType?_tokens (value : Target.Literal) {ts : List Token}
    (h : EndsType ts) : compoundType? (value.tokens ++ ts) = none := by
  rw [Target.Literal.tokens]
  cases value.isNegative with
  | true => rfl
  | false =>
    cases hconstant : value.constant with
    | word x => exact compoundType?_word h x
    | integer _ | double _ | string _ | mark _ => rfl

/-- A parenthesis in front of an operand opens no compound literal. -/
theorem Target.Expr.compoundType?_operand (e : Target.Expr) {ts : List Token} (h : EndsType ts) :
    compoundType? (e.operandTokens e.tokens ++ ts) = none := by
  induction e generalizing ts with
  | identifier name => exact compoundType?_word h name
  | literal value => exact value.compoundType?_tokens h
  | index base index ihb _ =>
    have hbracket : EndsType (enclosed .openBracket .closeBracket index.tokens ++ ts) :=
      endsType_cons (by simp) (by simp)
    have hbase := ihb hbracket
    simpa [Target.Expr.operandTokens, Target.Expr.isAtom, Target.Expr.tokens] using hbase
  | call callee args _ => exact compoundType?_word (endsType_cons (by simp) (by simp)) callee
  | binary _ _ _ _ _ | ternary _ _ _ _ _ _ | compound _ _ _ => rfl

/-- Neither does one around an expression that is not an atom. -/
theorem Target.Expr.compoundType?_of_not_isAtom {e : Target.Expr} (h : e.isAtom = false)
    (ts : List Token) : compoundType? (e.tokens ++ ts) = none := by
  cases e with
  | identifier _ | literal _ | index _ _ | call _ _ => cases h
  | binary op left right =>
    rw [Target.Expr.tokens, List.append_assoc]
    exact left.compoundType?_operand (endsType_op op ((starts_operand right.starts).append _))
  | ternary cond thenExpr elseExpr =>
    rw [Target.Expr.tokens, List.append_assoc]
    exact cond.compoundType?_operand (endsType_cons (by simp) (by simp))
  | compound _ _ => rfl

/-! ## Expressions are read as their trees -/

namespace Target

/-- With enough fuel the expression is read off tokens that do not go on with it. -/
def Expr.Read (e : Expr) : Prop :=
  ∀ n rest, 8 * e.tokens.length + 2 ≤ n → Stops Token.continues rest →
    readExpr n (e.tokens ++ rest) = some (e.tree, rest)

/-- As an operand, the expression is what the suffixes behind it are read on, and the minus is read on
the result. -/
def Expr.Heads (e : Expr) : Prop :=
  ∀ n k rest result, (∀ m, k ≤ m → readSuffixes m e.unsigned rest = some result) →
    k + 8 * (e.operandTokens e.tokens).length ≤ n →
    readUnary n (e.operandTokens e.tokens ++ rest) = some (.negated e.isNegated result.1, result.2)

variable {n : Nat} {e : Expr} {rest : List Token}

theorem Expr.Heads.operand (he : e.Heads) (hrest : Stops Token.isSuffix rest)
    (hn : 8 * (e.operandTokens e.tokens).length < n) :
    readUnary n (e.operandTokens e.tokens ++ rest) = some (e.tree, rest) := by
  refine he n 1 rest (e.unsigned, rest) (fun m hm => ?_) (by omega)
  obtain ⟨m, rfl⟩ := Nat.exists_eq_add_of_le' hm
  exact readSuffixes_of_stops hrest

theorem Expr.Heads.readExpr (he : e.Heads) (hrest : Stops Token.continues rest)
    (hn : 8 * (e.operandTokens e.tokens).length + 2 ≤ n) :
    Syntax.readExpr n (e.operandTokens e.tokens ++ rest) = some (e.tree, rest) := by
  obtain ⟨m, rfl⟩ := Nat.exists_eq_add_of_le' (show 2 ≤ n by omega)
  exact readExpr_operand (he.operand (stops_isSuffix hrest) (by omega)) hrest

theorem Expr.operandTokens_of_isAtom (h : e.isAtom = true) (ts : List Token) :
    e.operandTokens ts = ts := if_pos h

theorem Expr.operandTokens_of_not_isAtom (h : e.isAtom = false) (ts : List Token) :
    e.operandTokens ts = enclosed .openParen .closeParen ts := if_neg (by simp [h])

theorem Expr.Heads.read (he : e.Heads) (hatom : e.isAtom = true) : e.Read := by
  intro n rest hn hrest
  have hread := he.readExpr hrest (n := n)
  rw [operandTokens_of_isAtom hatom] at hread
  exact hread hn

/-- An expression in parentheses is read as without them. -/
theorem Expr.Read.heads (he : e.Read) (hatom : e.isAtom = false) : e.Heads := by
  intro n k rest result hsuffixes hn
  rw [operandTokens_of_not_isAtom hatom] at hn ⊢
  simp only [enclosed, List.length_cons, List.length_append, List.length_nil] at hn
  obtain ⟨m, rfl⟩ := Nat.exists_eq_add_of_le' (show 2 ≤ n by omega)
  have hread := he m (.mark .closeParen :: rest) (by omega) (stops_cons.mpr rfl)
  rw [tree, isNegated_of_not_isAtom hatom] at hread
  have hparen := readPrimary_paren (compoundType?_of_not_isAtom hatom _) hread
  have htokens : enclosed .openParen .closeParen e.tokens ++ rest =
      .mark .openParen :: (e.tokens ++ .mark .closeParen :: rest) := by
    simp [enclosed]
  rw [htokens, readUnary_primary (by simp) hparen, isNegated_of_not_isAtom hatom]
  exact hsuffixes _ (by omega)

/-- Marks that close a list. -/
structure Closes (m : Mark) : Prop where
  continues : (Token.mark m).continues = false
  starts : (Token.mark m).starts = false
  ne_comma : m ≠ .comma

theorem closes_closeParen : Closes .closeParen := ⟨rfl, rfl, by simp⟩

theorem closes_closeBrace : Closes .closeBrace := ⟨rfl, rfl, by simp⟩

theorem Closes.expect {m : Mark} (hm : Closes m) {ts : List Token} (h : Starts ts) :
    Syntax.expect m ts = none := by
  obtain ⟨t, us, rfl, ht⟩ := h
  cases t with
  | word _ | integer _ | double _ | string _ => rfl
  | mark m' =>
    have hne : m' ≠ m := by
      rintro rfl
      rw [hm.starts] at ht
      cases ht
    exact if_neg hne

theorem readItems_separated {closing : Mark} (hclosing : Closes closing) {es : List Expr}
    (hes : ∀ e ∈ es, e.Read) (hne : es ≠ []) (rest : List Token)
    (hn : 8 * (separated (tokensOf es)).length + 3 ≤ n) :
    readItems n closing (separated (tokensOf es) ++ .mark closing :: rest) =
      some (treesOf es, rest) := by
  induction es generalizing n with
  | nil => exact absurd rfl hne
  | cons e es ih =>
    rw [List.forall_mem_cons] at hes
    obtain ⟨m, rfl⟩ := Nat.exists_eq_add_of_le' (show 1 ≤ n by omega)
    cases es with
    | nil =>
      simp only [tokensOf, separated] at hn ⊢
      exact readItems_single hclosing.ne_comma
        (hes.1 m _ (by omega) (stops_cons.mpr hclosing.continues))
    | cons e' es =>
      simp only [tokensOf, separated, List.length_append, List.length_cons] at hn ih ⊢
      rw [List.append_assoc]
      exact readItems_cons (hes.1 m _ (by omega) (stops_cons.mpr rfl))
        (ih hes.2 (by simp) (by omega))

theorem readList_separated {closing : Mark} (hclosing : Closes closing) {es : List Expr}
    (hes : ∀ e ∈ es, e.Read) (rest : List Token)
    (hn : 8 * (separated (tokensOf es)).length + 4 ≤ n) :
    readList n closing (separated (tokensOf es) ++ .mark closing :: rest) =
      some (treesOf es, rest) := by
  obtain ⟨m, rfl⟩ := Nat.exists_eq_add_of_le' (show 1 ≤ n by omega)
  cases es with
  | nil => exact readList_nil
  | cons e es =>
    have hstarts : Starts (separated (tokensOf (e :: es))) := by
      cases es with
      | nil => exact e.starts
      | cons e' es => exact e.starts.append _
    exact readList_items (hclosing.expect (hstarts.append _))
      (readItems_separated hclosing hes (by simp) rest (by omega))

theorem Literal.constant_ne_mark (value : Literal) (m : Mark) : value.constant ≠ .mark m := by
  cases value with
  | float value =>
    rw [constant]
    split_ifs <;> simp
  | int _ | bool _ | str _ => simp [constant]

theorem Literal.readPrimary_constant (value : Literal) :
    readPrimary (n + 1) (value.constant :: rest) = some (value.unsigned, rest) := by
  cases value with
  | float value =>
    rw [constant, unsigned]
    split_ifs
    · rw [readPrimary, if_neg (by decide)]
      rfl
    · rfl
    · rw [readPrimary, if_neg (by decide)]
      rfl
  | int _ | bool _ | str _ => rfl

theorem length_signed_pos (negative : Bool) (t : Token) : 0 < (signed negative t).length := by
  cases negative <;> simp [signed]

theorem Expr.heads_literal (value : Literal) : (Expr.literal value).Heads := by
  intro n k rest result hsuffixes hn
  have hconstant : ∀ m, k < m → readUnary (m + 1) (value.constant :: rest) = some result := by
    intro m hm
    obtain ⟨m, rfl⟩ := Nat.exists_eq_add_of_lt hm
    have hhead : (value.constant :: rest).head? ≠ some (.mark (.op .sub)) := by
      simpa using value.constant_ne_mark (.op .sub)
    rw [readUnary_primary hhead value.readPrimary_constant]
    exact hsuffixes _ (by omega)
  rw [operandTokens_of_isAtom rfl, tokens, Literal.tokens] at hn ⊢
  rw [isNegated]
  have hlength := length_signed_pos value.isNegative value.constant
  obtain ⟨m, rfl⟩ := Nat.exists_eq_add_of_le' (show 2 ≤ n by omega)
  cases value.isNegative with
  | false => exact hconstant (m + 1) (by omega)
  | true => exact readUnary_neg (hconstant m (by omega))

theorem Expr.heads_index {base index : Expr} (hbase : base.Heads) (hindex : index.Read) :
    (Expr.index base index).Heads := by
  intro n k rest result hsuffixes hn
  rw [operandTokens_of_isAtom rfl, tokens] at hn ⊢
  simp only [enclosed, List.length_append, List.length_cons, List.length_nil] at hn
  have hread : ∀ m, k + 8 * index.tokens.length + 3 ≤ m →
      readSuffixes m base.unsigned (enclosed .openBracket .closeBracket index.tokens ++ rest) =
        some result := by
    intro m hm
    obtain ⟨m, rfl⟩ := Nat.exists_eq_add_of_le' (show 1 ≤ m by omega)
    have htokens : enclosed .openBracket .closeBracket index.tokens ++ rest =
        .mark .openBracket :: (index.tokens ++ .mark .closeBracket :: rest) := by
      simp [enclosed]
    rw [htokens, readSuffixes_index (hindex m _ (by omega) (stops_cons.mpr rfl))]
    exact hsuffixes m (by omega)
  rw [List.append_assoc]
  exact hbase n _ _ result hread (by omega)

theorem Expr.heads_call {callee : String} {args : List Expr} (hcallee : callee ∉ keywords)
    (hargs : ∀ e ∈ args, e.Read) : (Expr.call callee args).Heads := by
  intro n k rest result hsuffixes hn
  rw [operandTokens_of_isAtom rfl, tokens] at hn ⊢
  simp only [enclosed, List.length_append, List.length_cons, List.length_nil] at hn
  obtain ⟨m, rfl⟩ := Nat.exists_eq_add_of_le' (show 2 ≤ n by omega)
  have hname : ∀ ts, readPrimary (m + 1) (.word callee :: ts) = some (.name callee, ts) := by
    intro ts
    rw [readPrimary, if_neg hcallee]
    rfl
  have hlist := readList_separated (n := m) closes_closeParen hargs rest (by omega)
  have htokens : enclosed .openParen .closeParen (separated (tokensOf args)) ++ rest =
      .mark .openParen :: (separated (tokensOf args) ++ .mark .closeParen :: rest) := by
    simp [enclosed]
  rw [List.cons_append, readUnary_primary (by simp) (hname _), htokens, readSuffixes_call hlist]
  exact hsuffixes m (by omega)

theorem Expr.heads_identifier {name : String} (hname : name ∉ keywords) :
    (Expr.identifier name).Heads := by
  intro n k rest result hsuffixes hn
  rw [operandTokens_of_isAtom rfl, tokens] at hn ⊢
  rw [List.length_singleton] at hn
  obtain ⟨m, rfl⟩ := Nat.exists_eq_add_of_le' (show 2 ≤ n by omega)
  have hread : readPrimary (m + 1) (.word name :: rest) = some (.name name, rest) := by
    rw [readPrimary, if_neg hname]
    rfl
  rw [List.singleton_append, readUnary_primary (by simp) hread]
  exact hsuffixes _ (by omega)

theorem Expr.read_binary (op : Operator) {left right : Expr} (hleft : left.Heads)
    (hright : right.Heads) : (Expr.binary op left right).Read := by
  intro n rest hn hrest
  rw [tokens, List.length_append, List.length_cons] at hn
  obtain ⟨m, rfl⟩ := Nat.exists_eq_add_of_le' (show 3 ≤ n by omega)
  rw [tokens, List.append_assoc]
  exact readExpr_binary (hleft.operand (stops_cons.mpr rfl) (by omega))
    (hright.operand (stops_isSuffix hrest) (by omega)) hrest

theorem Expr.read_ternary {cond thenExpr elseExpr : Expr} (hcond : cond.Heads)
    (hthen : thenExpr.Heads) (helse : elseExpr.Heads) :
    (Expr.ternary cond thenExpr elseExpr).Read := by
  intro n rest hn hrest
  simp only [tokens, List.length_append, List.length_cons] at hn
  obtain ⟨m, rfl⟩ := Nat.exists_eq_add_of_le' (show 2 ≤ n by omega)
  simp only [tokens, List.append_assoc, List.cons_append]
  exact readExpr_ternary (hcond.operand (stops_cons.mpr rfl) (by omega))
    (hthen.readExpr (stops_cons.mpr rfl) (by omega)) (helse.readExpr hrest (by omega))

theorem Expr.read_compound (ty : Ty) {elements : List Expr} (helements : ∀ e ∈ elements, e.Read) :
    (Expr.compound ty elements).Read := by
  intro n rest hn hrest
  simp only [tokens, enclosed, List.length_append, List.length_cons, List.length_nil] at hn
  obtain ⟨m, rfl⟩ := Nat.exists_eq_add_of_le' (show 4 ≤ n by omega)
  have hlist := readList_separated (n := m + 1) closes_closeBrace helements rest (by omega)
  have hprimary := readPrimary_compound (compoundType?_tokens ty _) hlist
  have htokens : (Expr.compound ty elements).tokens ++ rest =
      .mark .openParen :: (ty.tokens ++ .mark .closeParen :: .mark .openBrace ::
        (separated (tokensOf elements) ++ .mark .closeBrace :: rest)) := by
    simp [tokens, enclosed]
  refine readExpr_operand ?_ hrest
  rw [htokens, readUnary_primary (by simp) hprimary]
  exact readSuffixes_of_stops (stops_isSuffix hrest)

/-- Expressions without keywords are read as their trees, and so are operands. -/
theorem Expr.read_and_heads (e : Expr) (hnames : ∀ x ∈ e.names, x ∉ keywords) :
    e.Read ∧ e.Heads := by
  induction e with
  | identifier name =>
    have hheads := heads_identifier (hnames name (by simp [names]))
    exact ⟨hheads.read rfl, hheads⟩
  | literal value => exact ⟨(heads_literal value).read rfl, heads_literal value⟩
  | binary op left right ihl ihr =>
    rw [names, List.forall_mem_append] at hnames
    have hread := read_binary op (ihl hnames.1).2 (ihr hnames.2).2
    exact ⟨hread, hread.heads rfl⟩
  | index base index ihb ihi =>
    rw [names, List.forall_mem_append] at hnames
    have hheads := heads_index (ihb hnames.1).2 (ihi hnames.2).1
    exact ⟨hheads.read rfl, hheads⟩
  | call callee args ih =>
    rw [names, List.forall_mem_cons] at hnames
    have hheads := heads_call hnames.1 fun e he =>
      (ih e he fun x hx => hnames.2 x (mem_namesOf.mpr ⟨e, he, hx⟩)).1
    exact ⟨hheads.read rfl, hheads⟩
  | ternary cond thenExpr elseExpr ihc iht ihe =>
    rw [names, List.forall_mem_append, List.forall_mem_append] at hnames
    have hread := read_ternary (ihc hnames.1).2 (iht hnames.2.1).2 (ihe hnames.2.2).2
    exact ⟨hread, hread.heads rfl⟩
  | compound ty elements ih =>
    have hread := read_compound ty fun e he =>
      (ih e he fun x hx => hnames x (mem_namesOf.mpr ⟨e, he, hx⟩)).1
    exact ⟨hread, hread.heads rfl⟩

theorem Expr.tokens?_text (e : Expr) (hnames : ∀ x ∈ e.names, isWord x = true) :
    tokens? e.text = some e.tokens := by
  have hlexes := e.lexed hnames [] [] stops_nil .nil
  rw [List.append_nil, List.append_nil] at hlexes
  exact hlexes _ le_rfl

/-- The text of an expression is read as its tree. -/
theorem Expr.parse_text (e : Expr) (hnames : ∀ x ∈ e.names, isIdentifier x = true) :
    parse e.text = some e.tree := by
  have hread := (e.read_and_heads fun x hx => notMem_keywords_of_isIdentifier (hnames x hx)).1
    (8 * e.tokens.length + 8) [] (by omega) stops_nil
  rw [List.append_nil] at hread
  rw [parse, e.tokens?_text fun x hx => isWord_of_isIdentifier (hnames x hx)]
  simp only [Option.bind_eq_bind, Option.bind_some, hread]

end Target

end AnnotatedToC
