import AnnotatedToC.Proofs.Written

/-!
# The tokens of statements and functions

Layout is blank: whatever the indentation and the line breaks, and also without them, the lines of a
function are read as the same tokens. Each line ends in a mark that nothing joins, apart from `else`,
and that is followed by a bracket.
-/
namespace AnnotatedToC

open Json (Stops stops_cons stops_nil)
open Syntax

namespace Target

/-! ## Statements as tokens -/

def Declaration.tokens (d : Declaration) : List Token :=
  d.ty.tokens ++ .word d.name ::
    match d.init with
    | none => []
    | some init => .mark .assign :: init.tokens

def Update.tokens (u : Update) : List Token :=
  u.target.tokens ++ .mark (.update u.operator) :: u.value.tokens

def braced (ts : List Token) : List Token := enclosed .openBrace .closeBrace ts

mutual

def Stmt.tokens : Stmt → List Token
  | .declaration d => d.tokens ++ [.mark .semicolon]
  | .update u => u.tokens ++ [.mark .semicolon]
  | .ret none => [.word "return", .mark .semicolon]
  | .ret (some value) => .word "return" :: (value.tokens ++ [.mark .semicolon])
  | .conditional cond thenBranch elseBranch =>
    .word "if" :: (enclosed .openParen .closeParen cond.tokens ++
      (braced (blockTokens thenBranch) ++ elseTokens elseBranch))
  | .loop init cond next body =>
    .word "for" :: (enclosed .openParen .closeParen
        (init.tokens ++ .mark .semicolon :: (cond.tokens ++ .mark .semicolon :: next.tokens)) ++
      braced (blockTokens body))

def elseTokens : Option (List Stmt) → List Token
  | none => []
  | some body =>
    .word "else" ::
      match body with
      | [.conditional _ _ _] => blockTokens body
      | _ => braced (blockTokens body)

def blockTokens : List Stmt → List Token
  | [] => []
  | s :: ss => s.tokens ++ blockTokens ss

end

/-- The branch goes on with another conditional and nothing else. -/
def IsChain (body : List Stmt) : Prop :=
  ∃ cond thenBranch elseBranch, body = [.conditional cond thenBranch elseBranch]

theorem elseTokens_of_isChain {body : List Stmt} (h : IsChain body) :
    elseTokens (some body) = .word "else" :: blockTokens body := by
  obtain ⟨cond, thenBranch, elseBranch, rfl⟩ := h
  rfl

theorem elseTokens_of_not_isChain {body : List Stmt} (h : ¬ IsChain body) :
    elseTokens (some body) = .word "else" :: braced (blockTokens body) := by
  rw [elseTokens]
  exact fun cond thenBranch elseBranch hbody => h ⟨cond, thenBranch, elseBranch, hbody⟩

theorem elseBranchLines_of_isChain {body : List Stmt} (h : IsChain body) :
    elseBranchLines (some body) = elseLines (linesOf body) := by
  obtain ⟨cond, thenBranch, elseBranch, rfl⟩ := h
  rfl

theorem elseBranchLines_of_not_isChain {body : List Stmt} (h : ¬ IsChain body) :
    elseBranchLines (some body) = ⟨0, "else"⟩ :: block (linesOf body) := by
  rw [elseBranchLines]
  exact fun cond thenBranch elseBranch hbody => h ⟨cond, thenBranch, elseBranch, hbody⟩

def Declaration.paramTokens (p : Declaration) : List Token := p.ty.tokens ++ [.word p.name]

def paramsTokens : List Declaration → List Token
  | [] => [.word "void"]
  | params => separated (params.map Declaration.paramTokens)

def Function.tokens (f : Function) : List Token :=
  f.returnType.tokens ++ .word f.name ::
    (enclosed .openParen .closeParen (paramsTokens f.params) ++ braced (blockTokens f.body))

/-! ## Names -/

def Declaration.names (d : Declaration) : List String :=
  d.name :: match d.init with
    | none => []
    | some init => init.names

def Update.names (u : Update) : List String := u.target.names ++ u.value.names

mutual

def Stmt.names : Stmt → List String
  | .declaration d => d.names
  | .update u => u.names
  | .ret none => []
  | .ret (some value) => value.names
  | .conditional cond thenBranch elseBranch =>
    cond.names ++ (blockNames thenBranch ++ elseNames elseBranch)
  | .loop init cond next body => init.names ++ (cond.names ++ (next.names ++ blockNames body))

def elseNames : Option (List Stmt) → List String
  | none => []
  | some body => blockNames body

def blockNames : List Stmt → List String
  | [] => []
  | s :: ss => s.names ++ blockNames ss

end

/-- The names of the function, its parameters, its variables and the functions that it calls. -/
def Function.names (f : Function) : List String :=
  f.name :: (f.params.map Declaration.name ++ blockNames f.body)

theorem mem_blockNames {ss : List Stmt} {x : String} : x ∈ blockNames ss ↔ ∃ s ∈ ss, x ∈ s.names := by
  induction ss with
  | nil => simp [blockNames]
  | cons s ss ih => simp [blockNames, ih]

end Target

/-! ## Layout is blank -/

section Layout

variable {rest : List Char} {ts us : List Token} {ls ms : List Line}

/-- Nothing but blanks is added to the lines. -/
structure Page.Blank (p : Page) : Prop where
  unit : ∀ c ∈ p.unit.toList, isBlank c = true
  lineBreak : ∀ c ∈ p.lineBreak.toList, isBlank c = true

theorem Page.blank_ofStyle (style : LayoutStyle) : (Page.ofStyle style).Blank := by
  rw [Page.ofStyle]
  split_ifs
  · constructor
    · intro c hc
      cases hindent : style.indent with
      | spaces width =>
        rw [hindent, IndentStyle.unit, String.toList_ofList] at hc
        rw [List.eq_of_mem_replicate hc]
        rfl
      | tabs =>
        rw [hindent] at hc
        rw [List.mem_singleton.mp hc]
        rfl
    · intro c hc
      obtain rfl : c = '\n' := by simpa using hc
      rfl
  · exact ⟨by simp, by simp⟩

theorem Page.Blank.indented {p : Page} (h : p.Blank) : p.indented.Blank := ⟨h.unit, h.lineBreak⟩

theorem Page.Blank.indentation {p : Page} (h : p.Blank) (depth : Nat) :
    ∀ c ∈ (p.indentation depth).toList, isBlank c = true := by
  intro c hc
  rw [Page.indentation] at hc
  split_ifs at hc
  · simp at hc
  · rw [String.toList_join, List.mem_flatMap] at hc
    obtain ⟨unit, hunit, hc⟩ := hc
    rw [List.eq_of_mem_replicate hunit] at hc
    exact h.unit c hc

theorem Page.write_deeper (p : Page) (ls : List Line) :
    p.write (ls.map Line.deeper) = p.indented.write ls := by
  rw [Page.write, Page.write, List.map_map]
  congr 2
  funext l
  simp [Page.lineText, Page.indentation, Page.indented, Line.deeper, Nat.add_right_comm,
    Nat.add_assoc]

theorem Page.toList_write_cons (p : Page) (l : Line) (ls : List Line) :
    (p.write (l :: ls)).toList =
      (p.indentation l.depth).toList ++ (l.text.toList ++ (p.lineBreak.toList ++
        (p.write ls).toList)) := by
  simp [Page.write, Page.lineText, String.toList_join]

/-- The text ends in a mark that nothing joins. -/
def LexesAs (text : String) (ts : List Token) : Prop :=
  ∀ rest us, Lexes rest us → Lexes (text.toList ++ rest) (ts ++ us)

/-- The lines are read as these tokens, however they are laid out. -/
def LinesLex (ls : List Line) (ts : List Token) : Prop :=
  ∀ p : Page, p.Blank → ∀ rest us, Lexes rest us → Lexes ((p.write ls).toList ++ rest) (ts ++ us)

theorem LinesLex.nil : LinesLex [] [] := fun _ _ _ _ h => h

theorem LinesLex.cons {text : String} (htext : LexesAs text ts) (hls : LinesLex ls us) (depth : Nat) :
    LinesLex (⟨depth, text⟩ :: ls) (ts ++ us) := by
  intro p hp rest vs h
  have hrest := (hls p hp rest vs h).blanks hp.lineBreak
  have hline := (htext _ _ hrest).blanks (hp.indentation depth)
  simpa [Page.toList_write_cons] using hline

theorem LinesLex.append (hls : LinesLex ls ts) (hms : LinesLex ms us) :
    LinesLex (ls ++ ms) (ts ++ us) := by
  intro p hp rest vs h
  have hwrite : p.write (ls ++ ms) = p.write ls ++ p.write ms := by
    simp [Page.write]
  rw [hwrite, String.toList_append, List.append_assoc, List.append_assoc]
  exact hls p hp _ _ (hms p hp rest vs h)

theorem LinesLex.deeper (hls : LinesLex ls ts) : LinesLex (ls.map Line.deeper) ts := by
  intro p hp rest us h
  rw [Page.write_deeper]
  exact hls _ hp.indented rest us h

theorem lexesAs_openBrace : LexesAs "\x7b" [.mark .openBrace] := fun _ _ h => .bracket rfl rfl h

theorem lexesAs_closeBrace : LexesAs "\x7d" [.mark .closeBrace] := fun _ _ h => .bracket rfl rfl h

theorem LinesLex.block (hls : LinesLex ls ts) : LinesLex (block ls) (Target.braced ts) :=
  .cons lexesAs_openBrace (hls.deeper.append (.cons lexesAs_closeBrace .nil 0)) 0

/-- A bracket ends the word in front of it, with or without blanks between them. -/
theorem stops_blanks_append {bs : List Char} (hbs : ∀ c ∈ bs, isBlank c = true)
    (h : Stops isWordChar rest) : Stops isWordChar (bs ++ rest) := by
  cases bs with
  | nil => exact h
  | cons c bs =>
    have hblank := hbs c List.mem_cons_self
    rw [List.cons_append, stops_cons]
    cases hword : isWordChar c with
    | false => rfl
    | true =>
      rw [isBlank_eq_false_of_isWordChar hword] at hblank
      cases hblank

theorem Page.Blank.stops_block {p : Page} (hp : p.Blank) (ls : List Line) (rest : List Char) :
    Stops isWordChar ((p.write (block ls)).toList ++ rest) := by
  rw [AnnotatedToC.block, Page.toList_write_cons, List.append_assoc]
  exact stops_blanks_append (hp.indentation 0) (stops_cons.mpr rfl)

theorem LinesLex.elseBlock (hls : LinesLex ls ts) :
    LinesLex (⟨0, "else"⟩ :: AnnotatedToC.block ls) (.word "else" :: Target.braced ts) := by
  intro p hp rest us h
  have hblock := (hls.block p hp rest us h).blanks hp.lineBreak
  have hword := (Lexes.name (s := "else") (by decide)
    (stops_blanks_append hp.lineBreak (hp.stops_block ls rest)) hblock).blanks (hp.indentation 0)
  simpa [Page.toList_write_cons] using hword

theorem Syntax.Lexes.of_blanks {bs : List Char} (hbs : ∀ c ∈ bs, isBlank c = true)
    (h : Lexes (bs ++ rest) ts) : Lexes rest ts := by
  induction bs with
  | nil => exact h
  | cons c bs ih =>
    rw [List.forall_mem_cons] at hbs
    refine ih hbs.2 fun n hn => ?_
    have hread := h (n + 1) (by simpa using hn)
    rwa [List.cons_append, readTokens, if_pos hbs.1] at hread

/-- `else` goes in front of the first line. -/
theorem LinesLex.elseLines (hls : LinesLex ls ts) (hne : ls ≠ []) :
    LinesLex (Target.elseLines ls) (.word "else" :: ts) := by
  obtain ⟨l, ls, rfl⟩ := List.exists_cons_of_ne_nil hne
  intro p hp rest us h
  have hlines := hls p hp rest us h
  rw [Page.toList_write_cons, List.append_assoc] at hlines
  have hspace := Lexes.space (Lexes.of_blanks (hp.indentation l.depth) hlines)
  have hword := (Lexes.name (s := "else") (by decide) (stops_cons.mpr rfl) hspace).blanks
    (hp.indentation l.depth)
  simpa [Target.elseLines, Page.toList_write_cons] using hword

end Layout

/-! ## Statements are read as their tokens -/

section Lexing

variable {rest : List Char} {ts : List Token}

theorem Target.Declaration.lexes (d : Target.Declaration) (hnames : ∀ x ∈ d.names, isWord x = true)
    (hrest : Stops inWord rest) (h : Lexes rest ts) :
    Lexes (d.text.toList ++ rest) (d.tokens ++ ts) := by
  obtain ⟨name, ty, init⟩ := d
  rw [Target.Declaration.names, List.forall_mem_cons] at hnames
  cases init with
  | none =>
    have hname := ty.lexes_declarator hnames.1 (stops_isWordChar hrest) h
    simpa [Target.Declaration.text, Target.Declaration.tokens] using hname
  | some init =>
    have hinit := init.lexed hnames.2 rest ts hrest h
    have hassign := Lexes.mark (c := '=') rfl (stops_cons.mpr rfl) hinit.space
    have hname := ty.lexes_declarator hnames.1 (stops_cons.mpr rfl) hassign.space
    simpa [Target.Declaration.text, Target.Declaration.tokens] using hname

theorem lexes_update (o : Target.Operator) (h : Lexes rest ts) :
    Lexes (o.symbol.toList ++ '=' :: ' ' :: rest) (.mark (.update o) :: ts) := by
  cases o <;> exact .update rfl h.space

theorem Target.Update.lexes (u : Target.Update) (hnames : ∀ x ∈ u.names, isWord x = true)
    (hrest : Stops inWord rest) (h : Lexes rest ts) :
    Lexes (u.text.toList ++ rest) (u.tokens ++ ts) := by
  rw [Target.Update.names, List.forall_mem_append] at hnames
  have hvalue := u.value.lexed hnames.2 rest ts hrest h
  have htarget := u.target.lexed hnames.1 _ _ (stops_cons.mpr rfl)
    (lexes_update u.operator hvalue).space
  simpa [Target.Update.text, Target.Update.tokens] using htarget

theorem lexesAs_semicolon {text : String} (htext : ∀ rest us, Stops inWord rest → Lexes rest us →
    Lexes (text.toList ++ rest) (ts ++ us)) : LexesAs (text ++ ";") (ts ++ [.mark .semicolon]) := by
  intro rest us h
  have hmark : Lexes (';' :: rest) (.mark .semicolon :: us) := .bracket rfl rfl h
  simpa using htext _ _ (stops_cons.mpr rfl) hmark

theorem lexesAs_if {cond : Target.Expr} (hcond : ∀ x ∈ cond.names, isWord x = true) :
    LexesAs ("if (" ++ cond.text ++ ")")
      (.word "if" :: Target.enclosed .openParen .closeParen cond.tokens) := by
  intro rest us h
  have hclose : Lexes (')' :: rest) (.mark .closeParen :: us) := .bracket rfl rfl h
  have hinner := cond.lexed hcond _ _ (stops_cons.mpr rfl) hclose
  have hopen := Lexes.bracket (c := '(') rfl rfl hinner
  have hword := Lexes.name (s := "if") (by decide) (stops_cons.mpr rfl) hopen.space
  simpa [Target.enclosed] using hword

theorem lexesAs_for {init : Target.Declaration} {cond : Target.Expr} {next : Target.Update}
    (hinit : ∀ x ∈ init.names, isWord x = true) (hcond : ∀ x ∈ cond.names, isWord x = true)
    (hnext : ∀ x ∈ next.names, isWord x = true) :
    LexesAs ("for (" ++ init.text ++ "; " ++ cond.text ++ "; " ++ next.text ++ ")")
      (.word "for" :: Target.enclosed .openParen .closeParen
        (init.tokens ++ .mark .semicolon :: (cond.tokens ++ .mark .semicolon :: next.tokens))) := by
  intro rest us h
  have hclose : Lexes (')' :: rest) (.mark .closeParen :: us) := .bracket rfl rfl h
  have hupdate := next.lexes hnext (stops_cons.mpr rfl) hclose
  have htest := cond.lexed hcond _ _ (stops_cons.mpr rfl)
    (Lexes.bracket (c := ';') rfl rfl hupdate.space)
  have hstart := init.lexes hinit (stops_cons.mpr rfl)
    (Lexes.bracket (c := ';') rfl rfl htest.space)
  have hopen := Lexes.bracket (c := '(') rfl rfl hstart
  have hword := Lexes.name (s := "for") (by decide) (stops_cons.mpr rfl) hopen.space
  simpa [Target.enclosed] using hword

theorem linesLex_block {ss : List Target.Stmt} (hss : ∀ s ∈ ss, LinesLex s.lines s.tokens) :
    LinesLex (Target.linesOf ss) (Target.blockTokens ss) := by
  induction ss with
  | nil => exact .nil
  | cons s ss ih =>
    rw [List.forall_mem_cons] at hss
    exact hss.1.append (ih hss.2)

theorem linesLex_elseBranch {elseBranch : Option (List Target.Stmt)}
    (helse : ∀ body ∈ elseBranch, ∀ s ∈ body, LinesLex s.lines s.tokens) :
    LinesLex (Target.elseBranchLines elseBranch) (Target.elseTokens elseBranch) := by
  cases elseBranch with
  | none => exact .nil
  | some body =>
    have hbody := linesLex_block (helse body rfl)
    by_cases hchain : Target.IsChain body
    · rw [Target.elseTokens_of_isChain hchain, Target.elseBranchLines_of_isChain hchain]
      obtain ⟨cond, thenBranch, elseBranch, rfl⟩ := hchain
      exact hbody.elseLines (by simp [Target.linesOf, Target.Stmt.lines])
    · rw [Target.elseTokens_of_not_isChain hchain, Target.elseBranchLines_of_not_isChain hchain]
      exact hbody.elseBlock

/-- The lines of a statement are read as its tokens. -/
theorem Target.Stmt.linesLex (s : Target.Stmt) (hnames : ∀ x ∈ s.names, isWord x = true) :
    LinesLex s.lines s.tokens := by
  induction s with
  | declaration d =>
    have hd : LexesAs (d.text ++ ";") (d.tokens ++ [.mark .semicolon]) :=
      lexesAs_semicolon fun rest us => d.lexes hnames
    simpa [Target.Stmt.lines, Target.Stmt.tokens] using LinesLex.cons hd .nil 0
  | update u =>
    have hu : LexesAs (u.text ++ ";") (u.tokens ++ [.mark .semicolon]) :=
      lexesAs_semicolon fun rest us => u.lexes hnames
    simpa [Target.Stmt.lines, Target.Stmt.tokens] using LinesLex.cons hu .nil 0
  | conditional cond thenBranch elseBranch iht ihe =>
    simp only [Target.Stmt.names, List.forall_mem_append] at hnames
    obtain ⟨hcond, hthen, helse⟩ := hnames
    have hthenLines := linesLex_block fun s hs =>
      iht s hs fun x hx => hthen x (mem_blockNames.mpr ⟨s, hs, hx⟩)
    have helseLines := linesLex_elseBranch fun body hbody s hs =>
      ihe body hbody s hs fun x hx => helse x (by
        obtain rfl := Option.mem_def.mp hbody
        exact mem_blockNames.mpr ⟨s, hs, hx⟩)
    exact .cons (lexesAs_if hcond) (hthenLines.block.append helseLines) 0
  | loop init cond next body ih =>
    simp only [Target.Stmt.names, List.forall_mem_append] at hnames
    obtain ⟨hinit, hcond, hnext, hbody⟩ := hnames
    have hlines := linesLex_block fun s hs =>
      ih s hs fun x hx => hbody x (mem_blockNames.mpr ⟨s, hs, hx⟩)
    exact .cons (lexesAs_for hinit hcond hnext) hlines.block 0
  | ret value =>
    cases value with
    | none =>
      have hret : LexesAs "return;" [.word "return", .mark .semicolon] := fun rest us h =>
        .name (s := "return") (by decide) (stops_cons.mpr rfl) (.bracket rfl rfl h)
      exact .cons hret .nil 0
    | some value =>
      have hret : LexesAs ("return " ++ value.text ++ ";")
          (.word "return" :: value.tokens ++ [.mark .semicolon]) :=
        lexesAs_semicolon fun rest us hrest h => by
          have hvalue := value.lexed hnames rest us hrest h
          have hword := Lexes.name (s := "return") (by decide) (stops_cons.mpr rfl) hvalue.space
          simpa using hword
      simpa [Target.Stmt.lines, Target.Stmt.tokens] using LinesLex.cons hret .nil 0

theorem lexes_params {params : List Target.Declaration} (hnames : ∀ p ∈ params, isWord p.name = true)
    (hrest : Stops isWordChar rest) (h : Lexes rest ts) :
    Lexes ((", ".intercalate (params.map fun p => p.ty.declarator p.name)).toList ++ rest)
      (Target.separated (params.map Target.Declaration.paramTokens) ++ ts) := by
  induction params with
  | nil => simpa [Target.separated] using h
  | cons p params ih =>
    rw [List.forall_mem_cons] at hnames
    cases params with
    | nil =>
      have hp := p.ty.lexes_declarator hnames.1 hrest h
      simpa [Target.separated, Target.Declaration.paramTokens] using hp
    | cons p' params =>
      have hcomma := Lexes.bracket (c := ',') rfl rfl (ih hnames.2).space
      have hp := p.ty.lexes_declarator hnames.1 (stops_cons.mpr rfl) hcomma
      simpa [Target.separated, Target.Declaration.paramTokens, String.intercalate_cons_cons] using hp

theorem Target.Function.lexesAs_header (f : Target.Function) (hname : isWord f.name = true)
    (hparams : ∀ p ∈ f.params, isWord p.name = true) :
    LexesAs f.header (f.returnType.tokens ++ .word f.name ::
      Target.enclosed .openParen .closeParen (Target.paramsTokens f.params)) := by
  intro rest us h
  have hclose : Lexes (')' :: rest) (.mark .closeParen :: us) := .bracket rfl rfl h
  obtain ⟨name, returnType, params, body⟩ := f
  cases params with
  | nil =>
    have hvoid := Lexes.name (s := "void") (by decide) (stops_cons.mpr rfl) hclose
    have hopen := Lexes.bracket (c := '(') rfl rfl hvoid
    have hdeclarator := returnType.lexes_declarator hname (stops_cons.mpr rfl) hopen
    simpa [Target.Function.header, Target.enclosed, Target.paramsTokens] using hdeclarator
  | cons p params =>
    have hlist := lexes_params hparams (stops_cons.mpr rfl) hclose
    have hopen := Lexes.bracket (c := '(') rfl rfl hlist
    have hdeclarator := returnType.lexes_declarator hname (stops_cons.mpr rfl) hopen
    simpa [Target.Function.header, Target.enclosed, Target.paramsTokens] using hdeclarator

/-- In every style the text of a function is read as its tokens. -/
theorem Target.Function.tokens?_render (f : Target.Function) (style : LayoutStyle)
    (hnames : ∀ x ∈ f.names, isWord x = true) : tokens? (f.render style) = some f.tokens := by
  simp only [Target.Function.names, List.forall_mem_cons, List.forall_mem_append,
    List.forall_mem_map] at hnames
  obtain ⟨hname, hparams, hbody⟩ := hnames
  have hlines := linesLex_block fun s (hs : s ∈ f.body) => s.linesLex fun x hx =>
    hbody x (mem_blockNames.mpr ⟨s, hs, hx⟩)
  have hlexes := LinesLex.cons (f.lexesAs_header hname hparams) hlines.block 0
    (Page.ofStyle style) (Page.blank_ofStyle style) [] [] .nil
  rw [List.append_nil, List.append_nil] at hlexes
  have htokens := hlexes _ le_rfl
  rw [tokens?, Target.Function.render, Target.Function.lines, htokens, Target.Function.tokens]
  simp

end Lexing

end AnnotatedToC
