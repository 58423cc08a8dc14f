import AnnotatedToC.Proofs.Shapes
import AnnotatedToC.Proofs.Unread

/-!
# The text of a function is unambiguous

Every construct is read off its tokens in one way, whatever follows it: a type ends at the name behind
it, an expression where no operator goes on, a block at its bracket, and `else` belongs to the
conditional in front of it. So two functions have the same text exactly if they have the same normal
form.
-/
namespace AnnotatedToC.Target

open Json (Stops stops_cons stops_nil)
open Syntax

/-! ## Expressions, types and updates -/

section Unique

variable {rest rest' : List Token}

theorem Expr.unique {e e' : Expr} (hnames : ∀ x ∈ e.names, isIdentifier x = true)
    (hnames' : ∀ x ∈ e'.names, isIdentifier x = true) (hrest : Stops Token.continues rest)
    (hrest' : Stops Token.continues rest') (h : e.tokens ++ rest = e'.tokens ++ rest') :
    e.normal = e'.normal ∧ rest = rest' := by
  have hread := (e.read_and_heads fun x hx => notMem_keywords_of_isIdentifier (hnames x hx)).1
    (8 * e.tokens.length + 8 * e'.tokens.length + 2) rest (by omega) hrest
  have hread' := (e'.read_and_heads fun x hx => notMem_keywords_of_isIdentifier (hnames' x hx)).1
    (8 * e.tokens.length + 8 * e'.tokens.length + 2) rest' (by omega) hrest'
  rw [h, hread', Option.some.injEq, Prod.mk.injEq] at hread
  obtain ⟨htree, rfl⟩ := hread
  rw [← e.unread_tree hnames, ← e'.unread_tree hnames', htree]
  exact ⟨rfl, rfl⟩

/-- A type ends where no star goes on. -/
theorem Ty.unique {ty ty' : Ty} {t t' : Token} (ht : t ≠ .mark (.op .mul))
    (ht' : t' ≠ .mark (.op .mul)) (h : ty.tokens ++ t :: rest = ty'.tokens ++ t' :: rest') :
    ty = ty' ∧ t = t' ∧ rest = rest' := by
  have hpointers : ∀ {ty : Ty} {t : Token} {rest : List Token}, t ≠ .mark (.op .mul) →
      pointers ty (t :: rest) = (ty, t :: rest) := by
    intro ty t rest ht
    rw [pointers]
    rintro us ⟨⟩
    exact ht rfl
  have hread := readType_tokens ty (t :: rest)
  have hread' := readType_tokens ty' (t' :: rest')
  rw [hpointers ht] at hread
  rw [hpointers ht', ← h, hread] at hread'
  simpa using hread'

theorem Declaration.unique {d d' : Declaration} (hnames : ∀ x ∈ d.names, isIdentifier x = true)
    (hnames' : ∀ x ∈ d'.names, isIdentifier x = true)
    (h : d.tokens ++ .mark .semicolon :: rest = d'.tokens ++ .mark .semicolon :: rest') :
    d.normal = d'.normal ∧ rest = rest' := by
  obtain ⟨name, ty, init⟩ := d
  obtain ⟨name', ty', init'⟩ := d'
  simp only [tokens, List.append_assoc, List.cons_append] at h
  obtain ⟨rfl, hname, hinits⟩ := Ty.unique (by simp) (by simp) h
  obtain rfl := Token.word.inj hname
  simp only [names, List.forall_mem_cons] at hnames hnames'
  cases init with
  | none =>
    cases init' with
    | none => exact ⟨rfl, (List.cons.inj hinits).2⟩
    | some init' => simp at hinits
  | some init =>
    cases init' with
    | none => simp at hinits
    | some init' =>
      rw [List.cons_append, List.cons_append, List.cons.injEq] at hinits
      obtain ⟨hinit, hrest⟩ := Expr.unique hnames.2 hnames'.2 (stops_cons.mpr rfl)
        (stops_cons.mpr rfl) hinits.2
      simp only [normal, Option.map_some, hinit, (List.cons.inj hrest).2, and_self]

theorem Update.unique {u u' : Update} (hnames : ∀ x ∈ u.names, isIdentifier x = true)
    (hnames' : ∀ x ∈ u'.names, isIdentifier x = true) (hrest : Stops Token.continues rest)
    (hrest' : Stops Token.continues rest') (h : u.tokens ++ rest = u'.tokens ++ rest') :
    u.normal = u'.normal ∧ rest = rest' := by
  obtain ⟨operator, target, value⟩ := u
  obtain ⟨operator', target', value'⟩ := u'
  simp only [names, List.forall_mem_append] at hnames hnames'
  simp only [tokens, List.append_assoc, List.cons_append] at h
  obtain ⟨htarget, hvalues⟩ := Expr.unique hnames.1 hnames'.1 (stops_cons.mpr rfl)
    (stops_cons.mpr rfl) h
  simp only [List.cons.injEq, Token.mark.injEq, Mark.update.injEq] at hvalues
  obtain ⟨rfl, hvalues⟩ := hvalues
  obtain ⟨hvalue, hrests⟩ := Expr.unique hnames.2 hnames'.2 hrest hrest' hvalues
  simp only [normal, htarget, hvalue, hrests, and_self]

/-! ## Statements -/

/-- What follows a statement is not its other branch. -/
def NoElse (ts : List Token) : Prop := ts.head? ≠ some (.word "else")

def Stmt.Unique (s : Stmt) : Prop :=
  ∀ (s' : Stmt) (rest rest' : List Token), (∀ x ∈ s'.names, isIdentifier x = true) →
    NoElse rest → NoElse rest' → s.tokens ++ rest = s'.tokens ++ rest' →
    s.normal = s'.normal ∧ rest = rest'

theorem noElse_blockTokens {ss : List Stmt} (hnames : ∀ x ∈ blockNames ss, isIdentifier x = true)
    (rest : List Token) : NoElse (blockTokens ss ++ .mark .closeBrace :: rest) := by
  cases ss with
  | nil => simp [NoElse, blockTokens]
  | cons s ss =>
    rw [blockNames, List.forall_mem_append] at hnames
    obtain ⟨t, us, htokens, -, helse⟩ := s.head_tokens hnames.1
    simpa [NoElse, blockTokens, htokens] using helse

theorem blockTokens_ne_closeBrace {s : Stmt} {ss : List Stmt}
    (hnames : ∀ x ∈ blockNames (s :: ss), isIdentifier x = true) (ts us : List Token) :
    .mark .closeBrace :: ts ≠ blockTokens (s :: ss) ++ us := by
  rw [blockNames, List.forall_mem_append] at hnames
  obtain ⟨t, vs, htokens, hbrace, -⟩ := s.head_tokens hnames.1
  rw [blockTokens, htokens]
  rintro ⟨⟩
  exact hbrace rfl

/-- Statements are read one by one up to the bracket behind them. -/
theorem block_unique {ss ss' : List Stmt} (hss : ∀ s ∈ ss, s.Unique)
    (hnames : ∀ x ∈ blockNames ss, isIdentifier x = true)
    (hnames' : ∀ x ∈ blockNames ss', isIdentifier x = true)
    (h : blockTokens ss ++ .mark .closeBrace :: rest =
      blockTokens ss' ++ .mark .closeBrace :: rest') :
    normalBlock ss = normalBlock ss' ∧ rest = rest' := by
  induction ss generalizing ss' with
  | nil =>
    cases ss' with
    | nil => exact ⟨rfl, (List.cons.inj h).2⟩
    | cons s' ss' => exact absurd h (blockTokens_ne_closeBrace hnames' _ _)
  | cons s ss ih =>
    cases ss' with
    | nil => exact absurd h.symm (blockTokens_ne_closeBrace hnames _ _)
    | cons s' ss' =>
      simp only [blockNames, List.forall_mem_append] at hnames hnames'
      rw [List.forall_mem_cons] at hss
      rw [blockTokens, blockTokens, List.append_assoc, List.append_assoc] at h
      obtain ⟨hs, htail⟩ := hss.1 s' _ _ hnames'.1 (noElse_blockTokens hnames.2 rest)
        (noElse_blockTokens hnames'.2 rest') h
      obtain ⟨hblock, hrest⟩ := ih hss.2 hnames.2 hnames'.2 htail
      rw [normalBlock, normalBlock, hs, hblock]
      exact ⟨rfl, hrest⟩

theorem braced_unique {ss ss' : List Stmt} (hss : ∀ s ∈ ss, s.Unique)
    (hnames : ∀ x ∈ blockNames ss, isIdentifier x = true)
    (hnames' : ∀ x ∈ blockNames ss', isIdentifier x = true)
    (h : braced (blockTokens ss) ++ rest = braced (blockTokens ss') ++ rest') :
    normalBlock ss = normalBlock ss' ∧ rest = rest' := by
  simp only [braced, enclosed, List.cons_append, List.append_assoc, List.nil_append,
    List.cons.injEq, true_and] at h
  exact block_unique hss hnames hnames' h

theorem parenthesized_unique {e e' : Expr} (hnames : ∀ x ∈ e.names, isIdentifier x = true)
    (hnames' : ∀ x ∈ e'.names, isIdentifier x = true)
    (h : enclosed .openParen .closeParen e.tokens ++ rest =
      enclosed .openParen .closeParen e'.tokens ++ rest') :
    e.normal = e'.normal ∧ rest = rest' := by
  simp only [enclosed, List.cons_append, List.append_assoc, List.nil_append, List.cons.injEq,
    true_and] at h
  obtain ⟨he, hrest⟩ := Expr.unique hnames hnames' (stops_cons.mpr rfl) (stops_cons.mpr rfl) h
  exact ⟨he, (List.cons.inj hrest).2⟩

/-- A branch that goes on with another conditional does not start with a bracket. -/
theorem blockTokens_ne_braced {body : List Stmt} (h : IsChain body) (ts rest rest' : List Token) :
    blockTokens body ++ rest ≠ braced ts ++ rest' := by
  obtain ⟨cond, thenBranch, elseBranch, rfl⟩ := h
  rintro ⟨⟩

theorem chain_unique {body body' : List Stmt} (hchain : IsChain body) (hchain' : IsChain body')
    (hbody : ∀ s ∈ body, s.Unique) (hnames' : ∀ x ∈ blockNames body', isIdentifier x = true)
    (hrest : NoElse rest) (hrest' : NoElse rest')
    (h : blockTokens body ++ rest = blockTokens body' ++ rest') :
    normalBlock body = normalBlock body' ∧ rest = rest' := by
  obtain ⟨cond, thenBranch, elseBranch, rfl⟩ := hchain
  obtain ⟨cond', thenBranch', elseBranch', rfl⟩ := hchain'
  simp only [blockTokens, List.append_nil] at h
  simp only [blockNames, List.append_nil] at hnames'
  obtain ⟨hs, hrests⟩ := hbody _ List.mem_cons_self _ _ _ hnames' hrest hrest' h
  rw [normalBlock, normalBlock, hs]
  exact ⟨rfl, hrests⟩

theorem else_unique {elseBranch elseBranch' : Option (List Stmt)}
    (helse : ∀ body ∈ elseBranch, ∀ s ∈ body, s.Unique)
    (hnames : ∀ x ∈ elseNames elseBranch, isIdentifier x = true)
    (hnames' : ∀ x ∈ elseNames elseBranch', isIdentifier x = true) (hrest : NoElse rest)
    (hrest' : NoElse rest') (h : elseTokens elseBranch ++ rest = elseTokens elseBranch' ++ rest') :
    normalElse elseBranch = normalElse elseBranch' ∧ rest = rest' := by
  cases elseBranch with
  | none =>
    cases elseBranch' with
    | none => exact ⟨rfl, h⟩
    | some body' =>
      refine absurd ?_ hrest
      rw [elseTokens, List.nil_append] at h
      rw [h]
      rfl
  | some body =>
    cases elseBranch' with
    | none =>
      refine absurd ?_ hrest'
      rw [elseTokens.eq_1, List.nil_append] at h
      rw [← h]
      rfl
    | some body' =>
      have hbody := helse body rfl
      rw [normalElse, normalElse, Option.some.injEq]
      by_cases hchain : IsChain body <;> by_cases hchain' : IsChain body'
      · rw [elseTokens_of_isChain hchain, elseTokens_of_isChain hchain'] at h
        exact chain_unique hchain hchain' hbody hnames' hrest hrest' (List.cons.inj h).2
      · rw [elseTokens_of_isChain hchain, elseTokens_of_not_isChain hchain'] at h
        exact absurd (List.cons.inj h).2 (blockTokens_ne_braced hchain _ _ _)
      · rw [elseTokens_of_not_isChain hchain, elseTokens_of_isChain hchain'] at h
        exact absurd (List.cons.inj h).2.symm (blockTokens_ne_braced hchain' _ _ _)
      · rw [elseTokens_of_not_isChain hchain, elseTokens_of_not_isChain hchain'] at h
        exact braced_unique hbody hnames hnames' (List.cons.inj h).2

theorem Stmt.shape_eq {s s' : Stmt} (hnames : ∀ x ∈ s.names, isIdentifier x = true)
    (hnames' : ∀ x ∈ s'.names, isIdentifier x = true) (h : s.tokens ++ rest = s'.tokens ++ rest') :
    s.shape = s'.shape := by
  rw [← s.shapeOf_tokens hnames rest, ← s'.shapeOf_tokens hnames' rest', h]

theorem declaration_unique {d : Declaration}
    (hnames : ∀ x ∈ (Stmt.declaration d).names, isIdentifier x = true) :
    (Stmt.declaration d).Unique := by
  intro s' rest rest' hnames' _ _ h
  have hshape := Stmt.shape_eq hnames hnames' h
  cases s' with
  | declaration d' =>
    rw [Stmt.tokens, Stmt.tokens, List.append_assoc, List.append_assoc] at h
    obtain ⟨hd, hrest⟩ := Declaration.unique hnames hnames' h
    rw [Stmt.normal, Stmt.normal, hd]
    exact ⟨rfl, hrest⟩
  | update _ | conditional _ _ _ | loop _ _ _ _ | ret _ => cases hshape

theorem update_unique {u : Update} (hnames : ∀ x ∈ (Stmt.update u).names, isIdentifier x = true) :
    (Stmt.update u).Unique := by
  intro s' rest rest' hnames' _ _ h
  have hshape := Stmt.shape_eq hnames hnames' h
  cases s' with
  | update u' =>
    rw [Stmt.tokens, Stmt.tokens, List.append_assoc, List.append_assoc] at h
    obtain ⟨hu, hrest⟩ := Update.unique hnames hnames' (stops_cons.mpr rfl) (stops_cons.mpr rfl) h
    rw [Stmt.normal, Stmt.normal, hu]
    exact ⟨rfl, (List.cons.inj hrest).2⟩
  | declaration _ | conditional _ _ _ | loop _ _ _ _ | ret _ => cases hshape

theorem conditional_unique {cond : Expr} {thenBranch : List Stmt} {elseBranch : Option (List Stmt)}
    (hthen : ∀ s ∈ thenBranch, s.Unique) (helse : ∀ body ∈ elseBranch, ∀ s ∈ body, s.Unique)
    (hnames : ∀ x ∈ (Stmt.conditional cond thenBranch elseBranch).names, isIdentifier x = true) :
    (Stmt.conditional cond thenBranch elseBranch).Unique := by
  intro s' rest rest' hnames' hrest hrest' h
  have hshape := Stmt.shape_eq hnames hnames' h
  cases s' with
  | conditional cond' thenBranch' elseBranch' =>
    simp only [Stmt.names, List.forall_mem_append] at hnames hnames'
    simp only [Stmt.tokens, List.cons_append, List.append_assoc, List.cons.injEq, true_and] at h
    obtain ⟨hcond, hthenTokens⟩ := parenthesized_unique hnames.1 hnames'.1 h
    obtain ⟨hthenBranch, helseTokens⟩ := braced_unique hthen hnames.2.1 hnames'.2.1 hthenTokens
    obtain ⟨helseBranch, hrests⟩ :=
      else_unique helse hnames.2.2 hnames'.2.2 hrest hrest' helseTokens
    rw [Stmt.normal, Stmt.normal, hcond, hthenBranch, helseBranch]
    exact ⟨rfl, hrests⟩
  | declaration _ | update _ | loop _ _ _ _ | ret _ => cases hshape

theorem loop_unique {init : Declaration} {cond : Expr} {next : Update} {body : List Stmt}
    (hbody : ∀ s ∈ body, s.Unique)
    (hnames : ∀ x ∈ (Stmt.loop init cond next body).names, isIdentifier x = true) :
    (Stmt.loop init cond next body).Unique := by
  intro s' rest rest' hnames' _ _ h
  have hshape := Stmt.shape_eq hnames hnames' h
  cases s' with
  | loop init' cond' next' body' =>
    simp only [Stmt.names, List.forall_mem_append] at hnames hnames'
    simp only [Stmt.tokens, enclosed, List.cons_append, List.append_assoc, List.nil_append,
      List.cons.injEq, true_and] at h
    obtain ⟨hinit, hcondTokens⟩ := Declaration.unique hnames.1 hnames'.1 h
    obtain ⟨hcond, hnextTokens⟩ := Expr.unique hnames.2.1 hnames'.2.1 (stops_cons.mpr rfl)
      (stops_cons.mpr rfl) hcondTokens
    obtain ⟨hnext, hbodyTokens⟩ := Update.unique hnames.2.2.1 hnames'.2.2.1 (stops_cons.mpr rfl)
      (stops_cons.mpr rfl) (List.cons.inj hnextTokens).2
    obtain ⟨hblock, hrests⟩ :=
      braced_unique hbody hnames.2.2.2 hnames'.2.2.2 (List.cons.inj hbodyTokens).2
    rw [Stmt.normal, Stmt.normal, hinit, hcond, hnext, hblock]
    exact ⟨rfl, hrests⟩
  | declaration _ | update _ | conditional _ _ _ | ret _ => cases hshape

theorem Expr.semicolon_ne_tokens (e : Expr) (ts us : List Token) :
    .mark .semicolon :: ts ≠ e.tokens ++ us := by
  obtain ⟨t, vs, htokens, ht⟩ := e.starts
  rw [htokens]
  rintro ⟨⟩
  cases ht

theorem ret_unique {value : Option Expr}
    (hnames : ∀ x ∈ (Stmt.ret value).names, isIdentifier x = true) : (Stmt.ret value).Unique := by
  intro s' rest rest' hnames' _ _ h
  have hshape := Stmt.shape_eq hnames hnames' h
  cases s' with
  | ret value' =>
    -- A semicolon in place of the value is not the start of one.
    cases value <;> cases value' <;>
      simp only [Stmt.tokens, List.cons_append, List.nil_append, List.append_assoc, List.cons.injEq,
        true_and] at h
    case none.none => exact ⟨rfl, h⟩
    case none.some e' => exact absurd h (e'.semicolon_ne_tokens _ _)
    case some.none e => exact absurd h.symm (e.semicolon_ne_tokens _ _)
    case some.some e e' =>
      obtain ⟨he, hrest⟩ := Expr.unique hnames hnames' (stops_cons.mpr rfl) (stops_cons.mpr rfl) h
      rw [Stmt.normal, Stmt.normal, Option.map_some, Option.map_some, he]
      exact ⟨rfl, (List.cons.inj hrest).2⟩
  | declaration _ | update _ | conditional _ _ _ | loop _ _ _ _ => cases hshape

/-- A statement is read in one way. -/
theorem Stmt.unique (s : Stmt) (hnames : ∀ x ∈ s.names, isIdentifier x = true) : s.Unique := by
  induction s with
  | declaration d => exact declaration_unique hnames
  | update u => exact update_unique hnames
  | conditional cond thenBranch elseBranch iht ihe =>
    have hbranches := hnames
    simp only [names, List.forall_mem_append] at hbranches
    refine conditional_unique (fun s hs => iht s hs fun x hx => ?_) ?_ hnames
    · exact hbranches.2.1 x (mem_blockNames.mpr ⟨s, hs, hx⟩)
    · rintro body ⟨⟩ s hs
      exact ihe body rfl s hs fun x hx => hbranches.2.2 x (mem_blockNames.mpr ⟨s, hs, hx⟩)
  | loop init cond next body ih =>
    have hbody := hnames
    simp only [names, List.forall_mem_append] at hbody
    refine loop_unique (fun s hs => ih s hs fun x hx => ?_) hnames
    exact hbody.2.2.2 x (mem_blockNames.mpr ⟨s, hs, hx⟩)
  | ret value => exact ret_unique hnames

/-! ## Functions -/

/-- What follows a parameter in front of others. -/
def moreParams : List Declaration → List Token → List Token
  | [], rest => .mark .closeParen :: rest
  | p :: ps, rest => .mark .comma :: (p.ty.tokens ++ .word p.name :: moreParams ps rest)

theorem paramsTokens_cons (p : Declaration) (ps : List Declaration) (rest : List Token) :
    paramsTokens (p :: ps) ++ .mark .closeParen :: rest =
      p.ty.tokens ++ .word p.name :: moreParams ps rest := by
  induction ps generalizing p with
  | nil => simp [paramsTokens, separated, Declaration.paramTokens, moreParams]
  | cons q qs ih =>
    rw [moreParams, ← ih q]
    simp [paramsTokens, separated, Declaration.paramTokens]

theorem moreParams_unique {ps ps' : List Declaration} (h : moreParams ps rest = moreParams ps' rest') :
    ps.map Declaration.bare = ps'.map Declaration.bare ∧ rest = rest' := by
  induction ps generalizing ps' with
  | nil =>
    cases ps' with
    | nil => exact ⟨rfl, (List.cons.inj h).2⟩
    | cons p' ps' => simp [moreParams] at h
  | cons p ps ih =>
    cases ps' with
    | nil => simp [moreParams] at h
    | cons p' ps' =>
      obtain ⟨hty, hname, hmore⟩ := Ty.unique (by simp) (by simp) (List.cons.inj h).2
      obtain ⟨hps, hrest⟩ := ih hmore
      rw [List.map_cons, List.map_cons, hps, Declaration.bare, Declaration.bare, hty,
        Token.word.inj hname]
      exact ⟨rfl, hrest⟩

theorem params_unique {ps ps' : List Declaration}
    (h : paramsTokens ps ++ .mark .closeParen :: rest = paramsTokens ps' ++ .mark .closeParen :: rest') :
    ps.map Declaration.bare = ps'.map Declaration.bare ∧ rest = rest' := by
  -- Without parameters there is a type without a name.
  have hvoid : ∀ (p : Declaration) (ps : List Declaration) (ts us : List Token),
      paramsTokens [] ++ .mark .closeParen :: ts ≠ paramsTokens (p :: ps) ++ .mark .closeParen :: us := by
    intro p ps ts us heq
    rw [paramsTokens_cons] at heq
    change Ty.void.tokens ++ .mark .closeParen :: ts = _ at heq
    obtain ⟨-, hname, -⟩ := Ty.unique (by simp) (by simp) heq
    cases hname
  cases ps with
  | nil =>
    cases ps' with
    | nil => exact ⟨rfl, (List.cons.inj (List.cons.inj h).2).2⟩
    | cons p' ps' => exact absurd h (hvoid p' ps' _ _)
  | cons p ps =>
    cases ps' with
    | nil => exact absurd h.symm (hvoid p ps _ _)
    | cons p' ps' =>
      rw [paramsTokens_cons, paramsTokens_cons] at h
      have hmore : moreParams (p :: ps) rest = moreParams (p' :: ps') rest' := by
        rw [moreParams, moreParams, h]
      exact moreParams_unique hmore

theorem Function.unique {f g : Function} (hf : ∀ x ∈ f.names, isIdentifier x = true)
    (hg : ∀ x ∈ g.names, isIdentifier x = true) (h : f.tokens = g.tokens) : f.normal = g.normal := by
  obtain ⟨name, returnType, params, body⟩ := f
  obtain ⟨name', returnType', params', body'⟩ := g
  simp only [names, List.forall_mem_cons, List.forall_mem_append] at hf hg
  simp only [tokens, enclosed] at h
  obtain ⟨rfl, hname, hsignature⟩ := Ty.unique (by simp) (by simp) h
  obtain rfl := Token.word.inj hname
  simp only [List.cons_append, List.append_assoc, List.nil_append, List.cons.injEq,
    true_and] at hsignature
  obtain ⟨hparams, hbody⟩ := params_unique hsignature
  have hss : ∀ s ∈ body, s.Unique := fun s hs =>
    s.unique fun x hx => hf.2.2 x (mem_blockNames.mpr ⟨s, hs, hx⟩)
  have hbraced : braced (blockTokens body) ++ [] = braced (blockTokens body') ++ [] := by
    rw [hbody]
  obtain ⟨hblock, -⟩ := braced_unique hss hf.2.2 hg.2.2 hbraced
  exact congrArg₂ (Function.mk name returnType) hparams hblock

end Unique

/-- In every style two functions have the same text exactly if they differ only in how truth values and
NaNs are given and in the initial values of parameters. -/
theorem Function.render_eq_iff (style : LayoutStyle) (f g : Function)
    (hf : ∀ x ∈ f.names, isIdentifier x = true) (hg : ∀ x ∈ g.names, isIdentifier x = true) :
    f.render style = g.render style ↔ f.normal = g.normal := by
  constructor
  · intro h
    have htokens := f.tokens?_render style fun x hx => isWord_of_isIdentifier (hf x hx)
    rw [h, g.tokens?_render style fun x hx => isWord_of_isIdentifier (hg x hx)] at htokens
    exact Function.unique hf hg (Option.some.inj htokens).symm
  · intro h
    rw [render, render, ← f.lines_normal, ← g.lines_normal, h]

/-- With the value of `flag` given as a truth value or as `1` the function has the same text, and with
the difference grouped the other way it has another one. -/
theorem Function.render_eq_iff_difference :
    let difference (flag : Literal) (value : Expr) : Function :=
      ⟨"difference", .int, [⟨"a", .pointer .int, some (.literal flag)⟩, ⟨"b", .int, none⟩],
        [.conditional (.literal flag) [.ret none]
          (some [.conditional (.identifier "b") [] (some [.ret (some value)])])]⟩
    let first := Expr.index (.identifier "a") (.literal (.int (-1)))
    let left := Expr.binary .sub (.binary .sub first (.identifier "b")) (.identifier "b")
    let right := Expr.binary .sub first (.binary .sub (.identifier "b") (.identifier "b"))
    (difference (.bool true) left).render .compact = (difference (.int 1) left).render .compact ∧
      (difference (.int 1) left).render .compact ≠ (difference (.int 1) right).render .compact := by
  intro difference first left right
  constructor
  · exact (Function.render_eq_iff .compact _ _ (by decide) (by decide)).mpr rfl
  · rw [ne_eq, Function.render_eq_iff .compact _ _ (by decide) (by decide)]
    rintro ⟨⟩

end AnnotatedToC.Target
