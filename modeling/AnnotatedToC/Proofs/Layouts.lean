import AnnotatedToC.Proofs.Statements
import AnnotatedToC.Target.Emit

/-!
# Layout changes nothing but blanks

Writing a node is following its lines: the level goes up after an opening bracket and down before a
closing one, and no other line is a bracket. Along the lines of a node the brackets lead back to where
they began, so the draft is left as it was and each line is indented by its depth. The one exception is
a draft whose level has no room for the blocks of the node: past the greatest level it is lost.
-/
namespace AnnotatedToC

namespace Line

/-- The depth of the text before the line. -/
def before (l : Line) : Nat := if l.text = "\x7d" then l.depth + 1 else l.depth

/-- The depth of the text after the line. -/
def after (l : Line) : Nat := if l.text = "\x7b" then l.depth + 1 else l.depth

/-- The line ends in a mark that joins nothing. -/
def IsClosed (l : Line) : Prop :=
  ∃ c ∈ [';', '\x7b', '\x7d', ')'], l.text.toList.getLast? = some c

/-- Neither the line that opens a block nor the one that closes it. -/
structure IsPlain (text : String) : Prop where
  ne_open : text ≠ "\x7b"
  ne_close : text ≠ "\x7d"

end Line

/-- The lines lead from a depth to a depth: it changes by one after each opening bracket and before
each closing one, and nowhere else. -/
def Leads : Nat → List Line → Nat → Prop
  | a, [], b => a = b
  | a, l :: ls, b => a = l.before ∧ Leads l.after ls b

/-- Of two lines that follow each other, the first ends in a mark that joins nothing or the second is a
bracket. -/
def Separated (ls : List Line) : Prop := ls.IsChain fun l m => l.IsClosed ∨ m.text = "\x7b"

namespace Draft

/-- Writes a line at the depth that the brackets before it say. -/
def put (d : Draft) (l : Line) : Draft :=
  if l.text = "\x7b" then (d.line l.text).indent
  else if l.text = "\x7d" then d.dedent.line l.text
  else d.line l.text

def follow (d : Draft) (ls : List Line) : Draft := ls.foldl put d

/-- Every level that the lines go through can be counted. -/
def HasRoom (d : Draft) (ls : List Line) : Prop :=
  ∀ l ∈ ls, d.level.toNat + l.after < UInt64.size

instance (d : Draft) (ls : List Line) : Decidable (d.HasRoom ls) :=
  inferInstanceAs (Decidable (∀ l ∈ ls, _))

end Draft

/-! ## Writing is following lines -/

section Follow

variable (d : Draft) {ls : List Line}

theorem Draft.put_of_isPlain {l : Line} (h : Line.IsPlain l.text) : d.put l = d.line l.text := by
  rw [put, if_neg h.ne_open, if_neg h.ne_close]

@[simp]
theorem Draft.follow_nil : d.follow [] = d := rfl

@[simp]
theorem Draft.follow_cons (l : Line) (ls : List Line) :
    d.follow (l :: ls) = (d.put l).follow ls := rfl

theorem Draft.follow_cons_of_isPlain {l : Line} (h : Line.IsPlain l.text) (ls : List Line) :
    d.follow (l :: ls) = (d.line l.text).follow ls := by
  rw [follow_cons, d.put_of_isPlain h]

theorem Draft.follow_deeper (ls : List Line) : d.follow (ls.map Line.deeper) = d.follow ls := by
  rw [follow, List.foldl_map]
  rfl

theorem Draft.follow_append (ls ms : List Line) : d.follow (ls ++ ms) = (d.follow ls).follow ms :=
  List.foldl_append

theorem Draft.follow_block (ls : List Line) : d.follow (AnnotatedToC.block ls) = d.block (·.follow ls) := by
  have hopen (d : Draft) (ls : List Line) :
      d.follow (⟨0, "\x7b"⟩ :: ls) = (d.line "\x7b").indent.follow ls := rfl
  have hclose (d : Draft) : d.follow [⟨0, "\x7d"⟩] = d.dedent.line "\x7d" := rfl
  rw [AnnotatedToC.block, hopen, follow_append, hclose, follow_deeper, Draft.block]

end Follow

/-! ## Lines of nodes -/

section Plain

variable {text : String} {c : Char}

/-- What ends in a mark that is no bracket is no bracket. -/
theorem Line.isPlain_of_getLast? (h : text.toList.getLast? = some c) (hopen : c ≠ '\x7b')
    (hclose : c ≠ '\x7d') : IsPlain text := by
  constructor
  · rintro rfl
    exact hopen (Option.some.inj h).symm
  · rintro rfl
    exact hclose (Option.some.inj h).symm

theorem getLast?_semicolon (text : String) : (text ++ ";").toList.getLast? = some ';' := by
  simp

theorem getLast?_closeParen (text : String) : (text ++ ")").toList.getLast? = some ')' := by
  simp

theorem Line.isPlain_semicolon (text : String) : IsPlain (text ++ ";") :=
  isPlain_of_getLast? (getLast?_semicolon text) (by decide) (by decide)

theorem Line.isPlain_closeParen (text : String) : IsPlain (text ++ ")") :=
  isPlain_of_getLast? (getLast?_closeParen text) (by decide) (by decide)

theorem Line.isPlain_return : IsPlain "return;" := ⟨by decide, by decide⟩

theorem Line.isPlain_else : IsPlain "else" := ⟨by decide, by decide⟩

end Plain

namespace Target

/-- The lines of a statement, with the keyword of a conditional. -/
def Stmt.linesAs (keyword : String) : Stmt → List Line
  | .conditional cond thenBranch elseBranch =>
    ⟨0, keyword ++ " (" ++ cond.text ++ ")"⟩ ::
      (AnnotatedToC.block (linesOf thenBranch) ++ elseBranchLines elseBranch)
  | s => s.lines

theorem Stmt.linesAs_if (s : Stmt) : s.linesAs "if" = s.lines := by
  cases s with
  | conditional cond thenBranch elseBranch => rfl
  | declaration _ | update _ | loop _ _ _ _ | ret _ => rfl

theorem elseLines_conditional (cond : Expr) (thenBranch : List Stmt)
    (elseBranch : Option (List Stmt)) :
    elseLines (linesOf [.conditional cond thenBranch elseBranch]) =
      (Stmt.conditional cond thenBranch elseBranch).linesAs "else if" := by
  have helse : "else " ++ ("if (" ++ cond.text ++ ")") = "else if" ++ " (" ++ cond.text ++ ")" := by
    simp [← String.toList_inj]
  rw [linesOf, linesOf, List.append_nil, Stmt.lines, elseLines, helse, Stmt.linesAs]

/-- Writing the statement is following its lines. -/
def Stmt.Follows (s : Stmt) : Prop := ∀ keyword d, s.emitAs keyword d = d.follow (s.linesAs keyword)

section Emit

variable (d : Draft)

theorem emitAllAs_eq_follow {ss : List Stmt} (hss : ∀ s ∈ ss, s.Follows) :
    emitAllAs "if" ss d = d.follow (linesOf ss) := by
  induction ss generalizing d with
  | nil => rfl
  | cons s ss ih =>
    rw [List.forall_mem_cons] at hss
    rw [emitAllAs, hss.1, ih _ hss.2, linesOf, Draft.follow_append, s.linesAs_if]

theorem block_eq_follow {ss : List Stmt} (hss : ∀ s ∈ ss, s.Follows) :
    d.block (emitAllAs "if" ss) = d.follow (AnnotatedToC.block (linesOf ss)) := by
  have hbody : emitAllAs "if" ss = (·.follow (linesOf ss)) :=
    funext fun d => emitAllAs_eq_follow d hss
  rw [Draft.follow_block, hbody]

theorem emitElse_eq_follow {elseBranch : Option (List Stmt)}
    (helse : ∀ body ∈ elseBranch, ∀ s ∈ body, s.Follows) :
    emitElse elseBranch d = d.follow (elseBranchLines elseBranch) := by
  cases elseBranch with
  | none => rfl
  | some body =>
    by_cases hchain : IsChain body
    · obtain ⟨cond, thenBranch, elseBranch, rfl⟩ := hchain
      have hfollows := helse _ rfl _ List.mem_cons_self "else if" d
      rw [elseBranchLines_of_isChain ⟨_, _, _, rfl⟩, elseLines_conditional, ← hfollows]
      rfl
    · have hemit : emitElse (some body) d = (d.line "else").block (emitAllAs "if" body) := by
        rw [emitElse]
        exact fun cond thenBranch elseBranch h => hchain ⟨cond, thenBranch, elseBranch, h⟩
      rw [elseBranchLines_of_not_isChain hchain, hemit, block_eq_follow _ (helse body rfl)]
      rfl

end Emit

theorem Stmt.follows (s : Stmt) : s.Follows := by
  induction s with
  | declaration v =>
    intro keyword d
    exact (d.put_of_isPlain (l := ⟨0, v.text ++ ";"⟩) (Line.isPlain_semicolon _)).symm
  | update u =>
    intro keyword d
    exact (d.put_of_isPlain (l := ⟨0, u.text ++ ";"⟩) (Line.isPlain_semicolon _)).symm
  | conditional cond thenBranch elseBranch iht ihe =>
    intro keyword d
    rw [emitAs, linesAs, Draft.follow_cons_of_isPlain _ (Line.isPlain_closeParen _),
      Draft.follow_append, block_eq_follow _ iht, emitElse_eq_follow _ ihe]
  | loop init cond next body ih =>
    intro keyword d
    rw [emitAs, block_eq_follow _ ih, linesAs, lines,
      Draft.follow_cons_of_isPlain _ (Line.isPlain_closeParen _)]
    intro cond thenBranch elseBranch h
    cases h
  | ret value =>
    intro keyword d
    cases value with
    | none => exact (d.put_of_isPlain (l := ⟨0, "return;"⟩) Line.isPlain_return).symm
    | some value =>
      exact (d.put_of_isPlain (l := ⟨0, "return " ++ value.text ++ ";"⟩)
        (Line.isPlain_semicolon _)).symm

theorem Stmt.emit_eq_follow (s : Stmt) (d : Draft) : s.emit d = d.follow s.lines := by
  rw [emit, s.follows, s.linesAs_if]

/-- The line in front of a function's body ends in a bracket of its parameters. -/
theorem Function.getLast?_header (f : Function) : f.header.toList.getLast? = some ')' :=
  getLast?_closeParen _

theorem Function.isPlain_header (f : Function) : Line.IsPlain f.header :=
  Line.isPlain_of_getLast? f.getLast?_header (by decide) (by decide)

theorem Function.emit_eq_follow (f : Function) (d : Draft) : f.emit d = d.follow f.lines := by
  rw [emit, lines, block_eq_follow _ fun s _ => s.follows,
    Draft.follow_cons_of_isPlain _ f.isPlain_header]

end Target

/-! ## Brackets lead back -/

section Leads

variable {a b c : Nat} {ls ms : List Line}

theorem Leads.append (hls : Leads a ls b) (hms : Leads b ms c) : Leads a (ls ++ ms) c := by
  induction ls generalizing a with
  | nil =>
    obtain rfl : a = b := hls
    exact hms
  | cons l ls ih => exact ⟨hls.1, ih hls.2⟩

theorem Line.before_deeper (l : Line) : l.deeper.before = l.before + 1 := by
  unfold before deeper
  split_ifs <;> rfl

theorem Line.after_deeper (l : Line) : l.deeper.after = l.after + 1 := by
  unfold after deeper
  split_ifs <;> rfl

theorem Leads.deeper (h : Leads a ls b) : Leads (a + 1) (ls.map Line.deeper) (b + 1) := by
  induction ls generalizing a with
  | nil => exact congrArg (· + 1) h
  | cons l ls ih =>
    refine ⟨?_, ?_⟩
    · rw [l.before_deeper, h.1]
    · rw [l.after_deeper]
      exact ih h.2

theorem Leads.block (h : Leads 0 ls 0) : Leads 0 (block ls) 0 := by
  have hclose : Leads 1 [⟨0, "\x7d"⟩] 0 := ⟨rfl, rfl⟩
  exact ⟨rfl, h.deeper.append hclose⟩

theorem Leads.cons_of_isPlain {text : String} (htext : Line.IsPlain text) (h : Leads a ls b) :
    Leads a (⟨a, text⟩ :: ls) b := by
  have hbefore : Line.before ⟨a, text⟩ = a := if_neg htext.ne_close
  have hafter : Line.after ⟨a, text⟩ = a := if_neg htext.ne_open
  refine ⟨hbefore.symm, ?_⟩
  rwa [hafter]

end Leads

/-- Lines from depth zero back to depth zero that stay apart from each other and from what follows. -/
structure Laid (ls : List Line) : Prop where
  leads : Leads 0 ls 0
  separated : Separated ls
  closed : ∀ l ∈ ls.getLast?, l.IsClosed

section Laid

variable {ls ms : List Line} {text : String}

theorem laid_nil : Laid [] := ⟨rfl, .nil, by simp⟩

theorem Laid.append (hls : Laid ls) (hms : Laid ms) : Laid (ls ++ ms) := by
  constructor
  · exact hls.leads.append hms.leads
  · refine List.isChain_append.mpr ⟨hls.separated, hms.separated, fun l hl m _ => ?_⟩
    exact .inl (hls.closed l hl)
  · intro l hl
    rw [List.getLast?_append] at hl
    cases hlast : ms.getLast? with
    | none =>
      rw [hlast] at hl
      exact hls.closed l hl
    | some m =>
      rw [hlast] at hl
      exact hms.closed l (hlast.trans hl)

theorem isClosed_open (depth : Nat) : Line.IsClosed ⟨depth, "\x7b"⟩ := ⟨'\x7b', by simp, by simp⟩

theorem isClosed_close (depth : Nat) : Line.IsClosed ⟨depth, "\x7d"⟩ := ⟨'\x7d', by simp, by simp⟩

theorem isClosed_semicolon (depth : Nat) (text : String) : Line.IsClosed ⟨depth, text ++ ";"⟩ :=
  ⟨';', by simp, getLast?_semicolon text⟩

theorem isClosed_closeParen (depth : Nat) (text : String) : Line.IsClosed ⟨depth, text ++ ")"⟩ :=
  ⟨')', by simp, getLast?_closeParen text⟩

theorem getLast?_block (ls : List Line) : (block ls).getLast? = some ⟨0, "\x7d"⟩ := by
  rw [block, ← List.cons_append, List.getLast?_concat]

theorem Laid.block (h : Laid ls) : Laid (block ls) := by
  have hinner : Separated (ls.map Line.deeper) := (List.isChain_map _).mpr h.separated
  constructor
  · exact h.leads.block
  · apply List.IsChain.cons
    · refine List.isChain_append.mpr ⟨hinner, .singleton _, fun l hl m _ => ?_⟩
      rw [List.getLast?_map] at hl
      obtain ⟨l, hlast, rfl⟩ := Option.map_eq_some_iff.mp hl
      exact .inl (h.closed l hlast)
    · exact fun _ _ => .inl (isClosed_open 0)
  · intro l hl
    rw [getLast?_block, Option.mem_some_iff] at hl
    subst hl
    exact isClosed_close 0

theorem Laid.cons (hplain : Line.IsPlain text) (hclosed : Line.IsClosed ⟨0, text⟩) (h : Laid ls) :
    Laid (⟨0, text⟩ :: ls) := by
  have hline : Laid [⟨0, text⟩] := by
    refine ⟨Leads.cons_of_isPlain hplain rfl, .singleton _, ?_⟩
    intro l hl
    obtain rfl : ⟨0, text⟩ = l := by simpa using hl
    exact hclosed
  exact hline.append h

/-- `else` is the one line that ends in no mark. A bracket follows it. -/
theorem Laid.elseBlock (h : Laid ls) : Laid (⟨0, "else"⟩ :: AnnotatedToC.block ls) := by
  constructor
  · exact Leads.cons_of_isPlain Line.isPlain_else h.block.leads
  · apply h.block.separated.cons
    intro m hm
    obtain rfl : ⟨0, "\x7b"⟩ = m := by simpa [AnnotatedToC.block] using hm
    exact .inr rfl
  · intro l hl
    rw [List.getLast?_cons, getLast?_block] at hl
    exact h.block.closed l ((getLast?_block ls).trans hl)

end Laid

namespace Target

theorem laid_linesOf {ss : List Stmt} (hss : ∀ s ∈ ss, Laid s.lines) : Laid (linesOf ss) := by
  induction ss with
  | nil => exact laid_nil
  | cons s ss ih =>
    rw [List.forall_mem_cons] at hss
    exact hss.1.append (ih hss.2)

theorem laid_elseBranchLines {elseBranch : Option (List Stmt)}
    (helse : ∀ body ∈ elseBranch, ∀ s ∈ body, ∀ keyword, Laid (s.linesAs keyword)) :
    Laid (elseBranchLines elseBranch) := by
  cases elseBranch with
  | none => exact laid_nil
  | some body =>
    by_cases hchain : IsChain body
    · obtain ⟨cond, thenBranch, elseBranch, rfl⟩ := hchain
      rw [elseBranchLines_of_isChain ⟨_, _, _, rfl⟩, elseLines_conditional]
      exact helse _ rfl _ List.mem_cons_self "else if"
    · rw [elseBranchLines_of_not_isChain hchain]
      apply Laid.elseBlock
      apply laid_linesOf
      intro s hs
      rw [← s.linesAs_if]
      exact helse body rfl s hs "if"

theorem Stmt.laid_linesAs (s : Stmt) (keyword : String) : Laid (s.linesAs keyword) := by
  induction s generalizing keyword with
  | declaration v => exact laid_nil.cons (Line.isPlain_semicolon _) (isClosed_semicolon 0 _)
  | update u => exact laid_nil.cons (Line.isPlain_semicolon _) (isClosed_semicolon 0 _)
  | conditional cond thenBranch elseBranch iht ihe =>
    have hthen : Laid (linesOf thenBranch) := by
      apply laid_linesOf
      intro s hs
      rw [← s.linesAs_if]
      exact iht s hs "if"
    exact (hthen.block.append (laid_elseBranchLines ihe)).cons (Line.isPlain_closeParen _)
      (isClosed_closeParen 0 _)
  | loop init cond next body ih =>
    have hbody : Laid (linesOf body) := by
      apply laid_linesOf
      intro s hs
      rw [← s.linesAs_if]
      exact ih s hs "if"
    exact hbody.block.cons (Line.isPlain_closeParen _) (isClosed_closeParen 0 _)
  | ret value =>
    cases value with
    | none => exact laid_nil.cons Line.isPlain_return ⟨';', by simp, rfl⟩
    | some value => exact laid_nil.cons (Line.isPlain_semicolon _) (isClosed_semicolon 0 _)

theorem Stmt.laid_lines (s : Stmt) : Laid s.lines := by
  rw [← s.linesAs_if]
  exact s.laid_linesAs "if"

theorem Function.laid_lines (f : Function) : Laid f.lines :=
  (laid_linesOf fun s _ => s.laid_lines).block.cons f.isPlain_header ⟨')', by simp, f.getLast?_header⟩

end Target

/-! ## Following lines -/

namespace Draft

section Put

variable (d : Draft) (l : Line)

@[simp]
theorem unit_put : (d.put l).unit = d.unit := by
  unfold put
  split_ifs <;> rfl

@[simp]
theorem lineBreak_put : (d.put l).lineBreak = d.lineBreak := by
  unfold put
  split_ifs <;> rfl

variable {d l}

theorem toNat_level_dedent : d.dedent.level.toNat = d.level.toNat - 1 := by
  unfold dedent
  by_cases h : d.level = 0
  · simp [h]
  · have hne : d.level.toNat ≠ 0 := fun h0 => h (UInt64.toNat_inj.mp h0)
    have hpos : 1 ≤ d.level := by
      rw [UInt64.le_iff_toNat_le]
      exact Nat.one_le_iff_ne_zero.mpr hne
    rw [if_neg h, UInt64.toNat_sub_of_le _ _ hpos]
    rfl

theorem toNat_level_put_open (h : l.text = "\x7b") :
    (d.put l).level.toNat = (d.level.toNat + 1) % UInt64.size := by
  rw [put, if_pos h]
  exact UInt64.toNat_add d.level 1

theorem toNat_level_put_close (h : l.text = "\x7d") :
    (d.put l).level.toNat = d.level.toNat - 1 := by
  have hne : l.text ≠ "\x7b" := by simp [h]
  rw [put, if_neg hne, if_pos h]
  exact toNat_level_dedent

/-- As long as there is room, the level after a line is the one that the brackets say. -/
theorem toNat_level_put {n : Nat} (hlevel : d.level.toNat = n + l.before)
    (hroom : n + l.after < UInt64.size) : (d.put l).level.toNat = n + l.after := by
  by_cases hopen : l.text = "\x7b"
  · rw [toNat_level_put_open hopen, hlevel]
    rw [Line.after, if_pos hopen] at hroom ⊢
    rw [Line.before, if_neg (by simp [hopen])]
    exact Nat.mod_eq_of_lt hroom
  · rw [Line.after, if_neg hopen]
    by_cases hclose : l.text = "\x7d"
    · rw [toNat_level_put_close hclose, hlevel, Line.before, if_pos hclose]
      omega
    · rw [put_of_isPlain d ⟨hopen, hclose⟩]
      rw [Line.before, if_neg hclose] at hlevel
      exact hlevel

/-- Once lost, the level is never more than the depth. -/
theorem toNat_level_put_le (hlevel : d.level.toNat ≤ l.before) : (d.put l).level.toNat ≤ l.after := by
  by_cases hopen : l.text = "\x7b"
  · rw [toNat_level_put_open hopen, Line.after, if_pos hopen]
    rw [Line.before, if_neg (by simp [hopen])] at hlevel
    exact (Nat.mod_le _ _).trans (Nat.succ_le_succ hlevel)
  · rw [Line.after, if_neg hopen]
    by_cases hclose : l.text = "\x7d"
    · rw [Line.before, if_pos hclose] at hlevel
      rw [toNat_level_put_close hclose]
      omega
    · rw [Line.before, if_neg hclose] at hlevel
      rw [put_of_isPlain d ⟨hopen, hclose⟩]
      exact hlevel

/-- A level without room for the block that a line opens is lost. -/
theorem toNat_level_put_of_no_room {n : Nat} (hlevel : d.level.toNat = n + l.before)
    (hroom : ¬ n + l.after < UInt64.size) : (d.put l).level.toNat = 0 := by
  have hlt := d.level.toNat_lt_size
  by_cases hopen : l.text = "\x7b"
  · rw [Line.before, if_neg (by simp [hopen])] at hlevel
    rw [Line.after, if_pos hopen] at hroom
    have hsize : d.level.toNat + 1 = UInt64.size := by omega
    rw [toNat_level_put_open hopen, hsize, Nat.mod_self]
  · rw [Line.after, if_neg hopen] at hroom
    have hle : l.depth ≤ l.before := by
      unfold Line.before
      split_ifs <;> omega
    omega

/-- The line stands at the level that the page says for its depth. -/
theorem text_put {n : Nat} (hlevel : d.level.toNat = n + l.before) :
    (d.put l).text = d.text ++ Page.lineText ⟨n, d.unit, d.lineBreak⟩ l := by
  have hline (d : Draft) (h : d.level.toNat = n + l.depth) :
      (d.line l.text).text = d.text ++ Page.lineText ⟨n, d.unit, d.lineBreak⟩ l := by
    simp only [line, Page.lineText, Page.indentation, page, h, Nat.add_zero]
  unfold put
  split_ifs with hopen hclose
  · rw [Line.before, if_neg (by simp [hopen])] at hlevel
    exact hline d hlevel
  · rw [Line.before, if_pos hclose] at hlevel
    apply hline d.dedent
    rw [toNat_level_dedent, hlevel]
    omega
  · rw [Line.before, if_neg hclose] at hlevel
    exact hline d hlevel

end Put

section Follow

variable {d : Draft} {ls : List Line} {n a b : Nat}

theorem unit_follow (d : Draft) (ls : List Line) : (d.follow ls).unit = d.unit := by
  induction ls generalizing d with
  | nil => rfl
  | cons l ls ih => exact (ih _).trans (d.unit_put l)

theorem lineBreak_follow (d : Draft) (ls : List Line) : (d.follow ls).lineBreak = d.lineBreak := by
  induction ls generalizing d with
  | nil => rfl
  | cons l ls ih => exact (ih _).trans (d.lineBreak_put l)

theorem toNat_level_follow (hls : Leads a ls b) (hlevel : d.level.toNat = n + a)
    (hroom : ∀ l ∈ ls, n + l.after < UInt64.size) : (d.follow ls).level.toNat = n + b := by
  induction ls generalizing d a with
  | nil =>
    obtain rfl : a = b := hls
    exact hlevel
  | cons l ls ih =>
    obtain ⟨rfl, hls⟩ := hls
    rw [List.forall_mem_cons] at hroom
    exact ih hls (toNat_level_put hlevel hroom.1) hroom.2

theorem text_follow (hls : Leads a ls b) (hlevel : d.level.toNat = n + a)
    (hroom : ∀ l ∈ ls, n + l.after < UInt64.size) :
    (d.follow ls).text = d.text ++ Page.write ⟨n, d.unit, d.lineBreak⟩ ls := by
  induction ls generalizing d a with
  | nil => simp [Page.write]
  | cons l ls ih =>
    obtain ⟨rfl, hls⟩ := hls
    rw [List.forall_mem_cons] at hroom
    have hrest := ih hls (toNat_level_put hlevel hroom.1) hroom.2
    rw [unit_put, lineBreak_put, text_put hlevel] at hrest
    simpa [Page.write, String.append_assoc] using hrest

theorem toNat_level_follow_le (hls : Leads a ls b) (hlevel : d.level.toNat ≤ a) :
    (d.follow ls).level.toNat ≤ b := by
  induction ls generalizing d a with
  | nil =>
    obtain rfl : a = b := hls
    exact hlevel
  | cons l ls ih =>
    obtain ⟨rfl, hls⟩ := hls
    exact ih hls (toNat_level_put_le hlevel)

/-- Without room for all levels the level is lost on the way and not found again. -/
theorem toNat_level_follow_of_no_room (hls : Leads a ls b) (hlevel : d.level.toNat = n + a)
    (hroom : ¬ ∀ l ∈ ls, n + l.after < UInt64.size) : (d.follow ls).level.toNat ≤ b := by
  induction ls generalizing d a with
  | nil => simp at hroom
  | cons l ls ih =>
    obtain ⟨rfl, hls⟩ := hls
    by_cases hl : n + l.after < UInt64.size
    · rw [List.forall_mem_cons, not_and] at hroom
      exact ih hls (toNat_level_put hlevel hl) (hroom hl)
    · apply toNat_level_follow_le hls
      rw [toNat_level_put_of_no_room hlevel hl]
      exact Nat.zero_le _

/-- Without an indentation the level does not show. -/
theorem text_follow_of_unit (hunit : d.unit = "") (ls : List Line) :
    (d.follow ls).text = d.text ++ String.join (ls.map fun l => l.text ++ d.lineBreak) := by
  induction ls generalizing d with
  | nil => simp
  | cons l ls ih =>
    have hline (d : Draft) (h : d.unit = "") :
        (d.line l.text).text = d.text ++ (l.text ++ d.lineBreak) := by
      simp [line, Page.lineText, Page.indentation, page, h]
    have hput : (d.put l).text = d.text ++ (l.text ++ d.lineBreak) := by
      unfold put
      split_ifs
      · exact hline d hunit
      · exact hline d.dedent hunit
      · exact hline d hunit
    have hrest := ih ((d.unit_put l).trans hunit)
    rw [hput, lineBreak_put] at hrest
    simpa [String.append_assoc] using hrest

end Follow

end Draft

section Whole

variable {d : Draft} {ls : List Line}

theorem Draft.follow_eq (hls : Leads 0 ls 0) (hroom : d.HasRoom ls) :
    d.follow ls = { d with text := d.text ++ d.page.write ls } := by
  apply Draft.ext
  · exact UInt64.toNat_inj.mp (toNat_level_follow hls (Nat.add_zero _).symm hroom)
  · exact d.unit_follow ls
  · exact d.lineBreak_follow ls
  · exact text_follow hls (Nat.add_zero _).symm hroom

/-- Where there is no room, the level is lost, which shows unless it was zero. -/
theorem Draft.page_follow_eq_iff (hls : Leads 0 ls 0) :
    (d.follow ls).page = d.page ↔ d.HasRoom ls ∨ d.level = 0 := by
  constructor
  · intro hpage
    by_contra h
    rw [not_or] at h
    have hlost := toNat_level_follow_of_no_room hls (Nat.add_zero _).symm h.1
    have hlevel : (d.follow ls).level.toNat = d.level.toNat := congrArg Page.level hpage
    apply h.2
    rw [← UInt64.toNat_inj, ← hlevel]
    exact Nat.le_zero.mp hlost
  · intro h
    have hlevel : (d.follow ls).level.toNat = d.level.toNat := by
      rcases h with hroom | hzero
      · exact toNat_level_follow hls (Nat.add_zero _).symm hroom
      · have hle : (d.follow ls).level.toNat ≤ 0 := toNat_level_follow_le hls (by simp [hzero])
        rw [hzero]
        exact Nat.le_zero.mp hle
    rw [page, page, hlevel, d.unit_follow, d.lineBreak_follow]

end Whole

theorem Page.indentation_eq (p : Page) (depth : Nat) :
    p.indentation depth = String.join (.replicate (p.level + depth) p.unit) := by
  rw [indentation]
  split_ifs with hunit
  · have hempty : p.unit = "" := String.isEmpty_iff.mp hunit
    rw [hempty, ← String.toList_inj, String.toList_join]
    simp
  · rfl

namespace Target

/-- In every style the text of a function is what is written on an empty draft, if the blocks inside it
can be counted. -/
theorem Function.text_emit (f : Function) (style : LayoutStyle)
    (hroom : ∀ l ∈ f.lines, l.after < UInt64.size) :
    (f.emit (.start (.ofStyle style))).text = f.render style := by
  have hlevel : (Page.ofStyle style).level = 0 := by
    unfold Page.ofStyle
    split_ifs <;> rfl
  have hpage : (Draft.start (.ofStyle style)).page = Page.ofStyle style := by
    rw [Draft.page, Draft.start, hlevel]
    exact congrArg (Page.mk · _ _) hlevel.symm
  rw [f.emit_eq_follow, Draft.follow_eq f.laid_lines.leads, hpage]
  · simp [Draft.start, render]
  · intro l hl
    simpa [Draft.start, hlevel] using hroom l hl

def Node.lines? : Node → Option (List Line)
  | .function f => some f.lines
  | .stmt s => some s.lines
  | .expr _ => none

theorem Node.follows_lines {n : Node} {ls : List Line} (h : n.lines? = some ls) :
    Laid ls ∧ ∀ d, n.emit d = d.follow ls := by
  cases n with
  | function f =>
    obtain rfl := Option.some.inj h
    exact ⟨f.laid_lines, f.emit_eq_follow⟩
  | stmt s =>
    obtain rfl := Option.some.inj h
    exact ⟨s.laid_lines, s.emit_eq_follow⟩
  | expr e => cases h

/-- A function or a statement is written as its lines, whatever the layout: each line is indented by the
level and its depth, depths change at brackets, and no two lines need a blank between them. The draft is
left as it was exactly if all levels can be counted or its level is zero. -/
theorem Node.emit_layout (n : Node) (hn : ∀ e, n ≠ .expr e) :
    ∃ ls, n.lines? = some ls ∧ Leads 0 ls 0 ∧ Separated ls ∧
      (∀ d : Draft, d.HasRoom ls →
        n.emit d = { d with text := d.text ++ String.join (ls.map fun l =>
          String.join (.replicate (d.level.toNat + l.depth) d.unit) ++ l.text ++ d.lineBreak) }) ∧
      (∀ d : Draft, d.unit = "" →
        (n.emit d).text = d.text ++ String.join (ls.map fun l => l.text ++ d.lineBreak)) ∧
      ∀ d : Draft, (n.emit d).page = d.page ↔ d.HasRoom ls ∨ d.level = 0 := by
  obtain ⟨ls, hls⟩ : ∃ ls, n.lines? = some ls := by
    cases n with
    | function f => exact ⟨_, rfl⟩
    | stmt s => exact ⟨_, rfl⟩
    | expr e => exact absurd rfl (hn e)
  obtain ⟨hlaid, hemit⟩ := Node.follows_lines hls
  refine ⟨ls, hls, hlaid.leads, hlaid.separated, fun d hroom => ?_, fun d hunit => ?_, fun d => ?_⟩
  · rw [hemit, Draft.follow_eq hlaid.leads hroom, Page.write]
    congr 4
    funext l
    rw [Page.lineText, Page.indentation_eq]
    rfl
  · rw [hemit, Draft.text_follow_of_unit hunit]
  · rw [hemit, Draft.page_follow_eq_iff hlaid.leads]

/-- On the greatest level a conditional is written rightly, but the level after it is zero. -/
theorem Node.emit_layout_chain :
    let n : Node := .stmt (.conditional (.identifier "a") []
      (some [.conditional (.identifier "b") [.ret none] none]))
    let greatest : Draft := ⟨18446744073709551615, "", "", "x"⟩
    n.emit ⟨1, "\t", "\n", "x"⟩ =
        ⟨1, "\t", "\n", "x\tif (a)\n\t\x7b\n\t\x7d\n\telse if (b)\n\t\x7b\n\t\treturn;\n\t\x7d\n"⟩ ∧
      (n.emit greatest).text = "xif (a)\x7b\x7delse if (b)\x7breturn;\x7d" ∧
      (n.emit greatest).page ≠ greatest.page := by
  intro n greatest
  obtain ⟨ls, hls, -, -, hroom, hunit, hpage⟩ := n.emit_layout (by simp [n])
  obtain rfl := Option.some.inj hls
  refine ⟨?_, ?_, ?_⟩
  · rw [hroom _ (by decide)]
    decide
  · rw [hunit greatest rfl]
    decide
  · rw [ne_eq, hpage]
    decide

end Target

end AnnotatedToC
