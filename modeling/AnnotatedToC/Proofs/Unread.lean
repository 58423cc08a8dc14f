import AnnotatedToC.Proofs.Normal
import AnnotatedToC.Proofs.Parsed

/-!
# From what is read to what was written

The minus that has moved out of the bases of subscripts is put back into the literal that it came from.
So what an expression is read as shows all of its normal form.
-/
namespace AnnotatedToC

open Syntax

def Double.negate (d : Double) : Double := .ofMagnitude (!d.isNegative) d.magnitude

/-- Gives the literal that the expression starts with the other sign. -/
def Target.Expr.negate : Target.Expr → Target.Expr
  | .literal (.int value) => .literal (.int (-value))
  | .literal (.float value) => .literal (.float value.negate)
  | .index base i => .index base.negate i
  | e => e

namespace Syntax

def Expr.callee : Expr → String
  | .name x => x
  | _ => ""

mutual

/-- The expression that was written, with each minus put back into its literal. -/
def Expr.unread : Expr → Target.Expr
  | .name x =>
    if x = "NAN" then .literal (.float .nan)
    else if x = "INFINITY" then .literal (.float (.ofMagnitude false Double.infinity))
    else .identifier x
  | .integer n => .literal (.int (.ofInt n))
  | .double m => .literal (.float (.ofMagnitude false m))
  | .string value => .literal (.str value)
  | .neg e => e.unread.negate
  | .binary op left right => .binary op left.unread right.unread
  | .index base index => .index base.unread index.unread
  | .call callee args => .call callee.callee (unreadAll args)
  | .ternary cond thenExpr elseExpr => .ternary cond.unread thenExpr.unread elseExpr.unread
  | .compound ty elements => .compound ty (unreadAll elements)

def unreadAll : List Expr → List Target.Expr
  | [] => []
  | e :: es => e.unread :: unreadAll es

end

end Syntax

theorem unread_negated (negative : Bool) (e : Syntax.Expr) :
    (Syntax.Expr.negated negative e).unread = if negative then e.unread.negate else e.unread := by
  cases negative <;> rfl

theorem Double.negate_ofMagnitude {m : Nat} (hm : m < Double.signBit) :
    (Double.ofMagnitude false m).negate = Double.ofMagnitude true m := by
  have hbits : (Double.ofMagnitude false m).bits.toNat = m := by
    simp only [Double.ofMagnitude, Bool.false_eq_true, if_false, UInt64.toNat_ofNat']
    exact Nat.mod_eq_of_lt (hm.trans (by decide))
  have hnegative : (Double.ofMagnitude false m).isNegative = false := by
    rw [Double.isNegative, hbits]
    simpa using hm
  have hmagnitude : (Double.ofMagnitude false m).magnitude = m := by
    rw [Double.magnitude, hbits]
    exact Nat.mod_eq_of_lt hm
  rw [Double.negate, hnegative, hmagnitude]
  rfl

/-- Signs are put on last. -/
theorem Double.negated_ofMagnitude (d : Double) :
    (if d.isNegative then (Double.ofMagnitude false d.magnitude).negate
      else Double.ofMagnitude false d.magnitude) = d := by
  have hd := d.ofMagnitude_magnitude
  have hlt : d.magnitude < Double.signBit := Nat.mod_lt _ (by decide)
  split_ifs with hnegative
  · rwa [hnegative, ← Double.negate_ofMagnitude hlt] at hd
  · rwa [Bool.eq_false_of_not_eq_true hnegative] at hd

theorem Double.magnitude_eq_infinity {d : Double} (hnan : d.isNaN = false)
    (hfinite : d.isFinite = false) : d.magnitude = Double.infinity := by
  simp only [Double.isNaN, Double.isFinite, decide_eq_false_iff_not] at hnan hfinite
  omega

namespace Target

theorem Literal.unread_tree (value : Literal) :
    (Expr.literal value).tree.unread = .literal value.normal := by
  cases value with
  | int value =>
    rw [normal, Expr.tree, Expr.isNegated, Expr.unsigned, isNegative, unsigned]
    by_cases hneg : value.toInt < 0
    · have habs : -(value.toInt.natAbs : Int) = value.toInt := by omega
      rw [decide_eq_true hneg, Syntax.Expr.negated, if_pos rfl, Syntax.Expr.unread,
        Syntax.Expr.unread, Expr.negate, ← Int64.ofInt_neg, habs, Int64.ofInt_toInt]
    · have habs : (value.toInt.natAbs : Int) = value.toInt := by omega
      rw [decide_eq_false hneg, Syntax.Expr.negated, if_neg (by simp), Syntax.Expr.unread, habs,
        Int64.ofInt_toInt]
  | float value =>
    cases hnan : value.isNaN with
    | true =>
      simp only [normal, Expr.tree, Expr.isNegated, Expr.unsigned, isNegative, unsigned, hnan]
      rfl
    | false =>
      have hunsigned : (unsigned (.float value)).unread =
          .literal (.float (.ofMagnitude false value.magnitude)) := by
        cases hfinite : value.isFinite with
        | true => simp [unsigned, Syntax.Expr.unread, hnan, hfinite]
        | false =>
          simp [unsigned, Syntax.Expr.unread, hnan, hfinite,
            Double.magnitude_eq_infinity hnan hfinite]
      have hsign := value.negated_ofMagnitude
      rw [Expr.tree, Expr.isNegated, Expr.unsigned, unread_negated, hunsigned, isNegative, hnan,
        normal, hnan]
      cases hnegative : value.isNegative with
      | true =>
        rw [hnegative, if_pos rfl] at hsign
        simp [Expr.negate, hsign]
      | false =>
        rw [hnegative, if_neg (by simp)] at hsign
        simp [hsign]
  | bool value => cases value <;> rfl
  | str value => rfl

theorem unreadAll_treesOf {es : List Expr} (hes : ∀ e ∈ es, e.tree.unread = e.normal) :
    unreadAll (treesOf es) = normalOf es := by
  induction es with
  | nil => rfl
  | cons e es ih =>
    rw [List.forall_mem_cons] at hes
    rw [treesOf_cons, unreadAll, hes.1, ih hes.2, normalOf]

/-- What an expression is read as shows all of it but its truth values and its kinds of NaN. -/
theorem Expr.unread_tree (e : Expr) (hnames : ∀ x ∈ e.names, isIdentifier x = true) :
    e.tree.unread = e.normal := by
  induction e with
  | identifier name =>
    obtain ⟨hnan, hinfinity⟩ := ne_of_isIdentifier (hnames name (by simp [names]))
    exact (if_neg hnan).trans (if_neg hinfinity)
  | literal value => exact value.unread_tree
  | binary op left right ihl ihr =>
    rw [names, List.forall_mem_append] at hnames
    rw [tree_binary, Syntax.Expr.unread, ihl hnames.1, ihr hnames.2, normal]
  | index base index ihb ihi =>
    rw [names, List.forall_mem_append] at hnames
    have hbase := ihb hnames.1
    have hindex := ihi hnames.2
    cases hneg : base.isNegated with
    | true =>
      rw [tree, hneg, unread_negated, if_pos rfl] at hbase
      rw [tree_index_of_isNegated hneg, Syntax.Expr.unread, Syntax.Expr.unread, negate, hbase, hindex,
        normal]
    | false => rw [tree_index hneg, Syntax.Expr.unread, hbase, hindex, normal]
  | call callee args ih =>
    rw [names, List.forall_mem_cons] at hnames
    have hargs := unreadAll_treesOf fun e he =>
      ih e he fun x hx => hnames.2 x (mem_namesOf.mpr ⟨e, he, hx⟩)
    rw [tree_call, Syntax.Expr.unread, hargs, normal]
    rfl
  | ternary cond thenExpr elseExpr ihc iht ihe =>
    rw [names, List.forall_mem_append, List.forall_mem_append] at hnames
    rw [tree_ternary, Syntax.Expr.unread, ihc hnames.1, iht hnames.2.1, ihe hnames.2.2, normal]
  | compound ty elements ih =>
    have helements := unreadAll_treesOf fun e he =>
      ih e he fun x hx => hnames x (mem_namesOf.mpr ⟨e, he, hx⟩)
    rw [tree_compound, Syntax.Expr.unread, helements, normal]

end Target

end AnnotatedToC
