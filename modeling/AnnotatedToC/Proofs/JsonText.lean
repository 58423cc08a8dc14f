import AnnotatedToC.Json.Printer
import AnnotatedToC.Json.Reader
import AnnotatedToC.Proofs.Nesting
import AnnotatedToC.Proofs.Numerals

/-!
# JSON text is read back

A value whose numbers fit is read back from its text, whatever blanks stand between its tokens, and the
reader stops where the text ends. The one thing that can go wrong is the depth: a value that nests deeper
than the reader allows is refused as malformed.
-/
namespace AnnotatedToC.Json

variable {rest : List Char}

/-! ## Blanks -/

theorem skipBlanks_append {bs : List Char} (h : ∀ c ∈ bs, isBlank c = true) :
    skipBlanks (bs ++ rest) = skipBlanks rest :=
  List.dropWhile_append_of_pos h

theorem skipBlanks_cons {c : Char} (h : isBlank c = false) : skipBlanks (c :: rest) = c :: rest :=
  List.dropWhile_cons_of_neg (by simp [h])

/-- A layout whose blanks are blank. -/
structure Blanks.Blank (blanks : Blanks) : Prop where
  lineAt : ∀ level, ∀ c ∈ blanks.lineAt level, isBlank c = true
  afterColon : ∀ c ∈ blanks.afterColon, isBlank c = true

theorem Blanks.blank_empty : Blanks.empty.Blank := by
  constructor <;> simp [Blanks.empty]

theorem Blanks.blank_lines : Blanks.lines.Blank := by
  constructor
  · intro level c hc
    rcases List.mem_cons.mp hc with rfl | hc
    · rfl
    · rw [List.eq_of_mem_replicate hc]
      rfl
  · simp [Blanks.lines, isBlank]

theorem inNumeral_of_isBlank {c : Char} (h : isBlank c = true) : inNumeral c = false := by
  simp only [isBlank, Bool.or_eq_true, beq_iff_eq] at h
  rcases h with ((rfl | rfl) | rfl) | rfl <;> rfl

theorem stops_blanks_append {bs : List Char} (h : ∀ c ∈ bs, isBlank c = true)
    (hrest : Stops inNumeral rest) : Stops inNumeral (bs ++ rest) := by
  cases bs with
  | nil => exact hrest
  | cons c bs => exact stops_cons.mpr (inNumeral_of_isBlank (h c List.mem_cons_self))

/-! ## Strings -/

theorem four_le_utf8ByteSize (a b c d : Char) :
    ¬ (String.ofList [a, b, c, d]).utf8ByteSize < 4 := by
  have ha := a.utf8Size_pos
  have hb := b.utf8Size_pos
  have hc := c.utf8Size_pos
  have hd := d.utf8Size_pos
  simp only [String.ofList_cons, String.ofList_nil, String.utf8ByteSize_append,
    String.utf8ByteSize_singleton, String.utf8ByteSize_empty]
  omega

theorem hexDigit?_digitChar {n : Nat} (hn : n < 16) : hexDigit? n.digitChar = some n := by
  have hall : ∀ k : Fin 16, hexDigit? (Nat.digitChar k) = some k.val := by decide
  exact hall ⟨n, hn⟩

theorem readHex_hexPair {n : Nat} (hn : n < 0x20) (text : List Char) :
    readHex ('0' :: '0' :: (hexPair n ++ text)) = .ok (n, text) := by
  have hvalue : hexValue? ['0', '0', Nat.digitChar (n / 16), Nat.digitChar (n % 16)] = some n := by
    have hzero : hexDigit? '0' = some 0 := rfl
    have hhigh := hexDigit?_digitChar (n := n / 16) (by omega)
    have hlow := hexDigit?_digitChar (n := n % 16) (by omega)
    simp only [hexValue?, List.foldlM_cons, List.foldlM_nil, hzero, hhigh, hlow, Option.map_some,
      Option.bind_eq_bind, Option.bind_some, Option.pure_def, Option.some.injEq]
    omega
  have htake : ('0' :: '0' :: (hexPair n ++ text)).take 4 =
      ['0', '0', Nat.digitChar (n / 16), Nat.digitChar (n % 16)] := rfl
  rw [readHex, htake, if_neg (four_le_utf8ByteSize _ _ _ _), hvalue]
  rfl

theorem readCode_hexPair {n : Nat} (hn : n < 0x20) (text : List Char) :
    readCode ('0' :: '0' :: (hexPair n ++ text)) = .ok (Char.ofNat n, text) := by
  have htrailing : isTrailing n = false := by
    rw [isTrailing, Bool.and_eq_false_imp]
    intro h
    rw [decide_eq_true_eq] at h
    omega
  have hleading : isLeading n = false := by
    rw [isLeading, Bool.and_eq_false_imp]
    intro h
    rw [decide_eq_true_eq] at h
    omega
  rw [readCode, readHex_hexPair hn]
  change (if isTrailing n = true then _ else if isLeading n = true then _ else _) = _
  rw [htrailing, hleading]
  rfl

/-- The text of a character is read as the character. -/
theorem readChars_stringChar (c f : Char) (fuel text : List Char) :
    readChars readCode (f :: fuel) (stringChar c ++ text) =
      (readChars readCode fuel text).map fun r => (c :: r.1, r.2) := by
  have hmap (x : Except Fault (List Char × List Char)) :
      (x >>= fun r => pure (c :: r.1, r.2)) = x.map fun r => (c :: r.1, r.2) := by
    cases x <;> rfl
  unfold stringChar
  split
  iterate 7 exact hmap _
  · split_ifs with hlow
    · rw [List.cons_append, readChars]
      change (readCode ('0' :: '0' :: (hexPair c.toNat ++ text)) >>= _) = _
      rw [readCode_hexPair hlow, Char.ofNat_toNat]
      exact hmap _
    · rename_i hquote hbackslash _ _ _ _ _
      rw [List.singleton_append, readChars]
      · rw [if_neg hlow]
        exact hmap _
      · exact fun h => hquote h
      · exact fun h => hbackslash h

theorem stringChar_ne_nil (c : Char) : stringChar c ≠ [] := by
  unfold stringChar
  split
  iterate 7 simp
  · split_ifs <;> simp

theorem length_le_flatMap_stringChar (cs : List Char) :
    cs.length ≤ (cs.flatMap stringChar).length := by
  induction cs with
  | nil => simp
  | cons c cs ih =>
    have hc := List.length_pos_iff.mpr (stringChar_ne_nil c)
    rw [List.flatMap_cons, List.length_append, List.length_cons]
    omega

theorem readChars_flatMap (cs : List Char) {fuel : List Char} (hfuel : cs.length < fuel.length) :
    readChars readCode fuel (cs.flatMap stringChar ++ '"' :: rest) = .ok (cs, rest) := by
  induction cs generalizing fuel with
  | nil =>
    cases fuel with
    | nil => simp at hfuel
    | cons f fuel => rfl
  | cons c cs ih =>
    cases fuel with
    | nil => simp at hfuel
    | cons f fuel =>
      rw [List.flatMap_cons, List.append_assoc, readChars_stringChar, ih (by simpa using hfuel)]
      rfl

theorem readString_text (s : String) :
    readString (s.toList.flatMap stringChar ++ '"' :: rest) = .ok (s, rest) := by
  have hfuel : s.toList.length < (s.toList.flatMap stringChar ++ '"' :: rest).length := by
    have hlength := length_le_flatMap_stringChar s.toList
    rw [List.length_append, List.length_cons]
    omega
  rw [readString, readChars_flatMap _ hfuel]
  change Except.ok (String.ofList s.toList, rest) = _
  rw [String.ofList_toList]

/-! ## Numbers and words -/

section Values

variable {onList onObject : Reader Json}

theorem readWith_blanks {bs : List Char} (h : ∀ c ∈ bs, isBlank c = true) :
    Scan.keep.readWith onList onObject (bs ++ rest) = Scan.keep.readWith onList onObject rest := by
  unfold Scan.readWith
  rw [skipBlanks_append h]

theorem readWith_digit {c : Char} (hc : c.isDigit = true) :
    Scan.keep.readWith onList onObject (c :: rest) = Scan.keep.readNumber false (c :: rest) := by
  have hblank : isBlank c = false := by
    cases h : isBlank c with
    | false => rfl
    | true =>
      have hnot := inNumeral_of_isBlank h
      simp [inNumeral, hc] at hnot
  rw [Scan.readWith, skipBlanks_cons hblank]
  split
  all_goals
    rename_i h
    cases h
  iterate 7 exact absurd hc (by decide)
  · rw [if_pos hc]

theorem keep_numeral {n : Numeral} {j : Json} (h : n.value? = some j) :
    Scan.keep.numeral n = .ok j := by
  simp [Scan.keep, h]

theorem readWith_numeral (style : NumberStyle) {n : Numeral} (h : n.Proper) {j : Json}
    (hvalue : n.value? = some j) (hrest : Stops inNumeral rest) :
    Scan.keep.readWith onList onObject
      ((if n.negative then '-' :: n.text style else n.text style) ++ rest) = .ok (j, rest) := by
  have hnumber : Scan.keep.readNumber n.negative (n.text style ++ rest) = .ok (j, rest) := by
    rw [Scan.readNumber, readNumeral_text style h hrest]
    change (Scan.keep.numeral n >>= _) = _
    rw [keep_numeral hvalue]
    rfl
  cases hnegative : n.negative with
  | true =>
    rw [hnegative] at hnumber
    exact hnumber
  | false =>
    rw [hnegative] at hnumber
    obtain ⟨c, cs, hcs⟩ := List.exists_cons_of_ne_nil h.whole_ne_nil
    have hdigit : c.isDigit = true := h.whole c (by simp [hcs])
    rw [if_neg (by simp), ← hnumber, Numeral.text, hcs]
    exact readWith_digit hdigit

theorem value?_toDigits {n : Int} (h : Int64.minValue.toInt ≤ n ∧ n < UInt64.size) :
    Numeral.value? ⟨decide (n < 0), Nat.toDigits 10 n.natAbs, none, none⟩ = some (.int n) := by
  have hmin : Int64.minValue.toInt = -2 ^ 63 := rfl
  have hint : Numeral.int? ⟨decide (n < 0), Nat.toDigits 10 n.natAbs, none, none⟩ = some n := by
    simp only [Numeral.int?, Nat.ofDigitChars_ten_toDigits, Option.isSome_none, Bool.false_eq_true,
      or_self, if_false, decide_eq_true_eq]
    rw [hmin] at h ⊢
    split_ifs with hneg hsmall hlarge
    · rw [Option.some.injEq]
      omega
    · omega
    · rw [Option.some.injEq]
      omega
    · omega
  rw [Numeral.value?, hint]

theorem value?_of_nearest {n : Numeral} {d : Double} (hfinite : d.isFinite = true)
    (hnegative : n.negative = d.isNegative) (hnearest : Double.nearestDecimal n.decimal = d.magnitude)
    (hmark : n.fraction.isSome = true ∨ n.exponent.isSome = true) : n.value? = some (.double d) := by
  have hint : n.int? = none := by
    rw [Numeral.int?, if_pos hmark]
  have hlt : d.magnitude < Double.infinity := of_decide_eq_true hfinite
  rw [Numeral.value?, hint]
  change n.double? = some (.double d)
  rw [Numeral.double?, Double.ofDecimal?, hnearest, if_pos hlt, hnegative,
    Double.ofMagnitude_magnitude, Option.map_some]

/-- What is neither a list nor an object is read back at any depth. -/
theorem readWith_scalar (blanks : Blanks) (level : Nat) {j : Json} (hfits : j.NumberFits)
    (harr : ∀ xs, j ≠ .arr xs) (hobj : ∀ ms, j ≠ .obj ms) (hrest : Stops inNumeral rest) :
    Scan.keep.readWith onList onObject (j.write blanks level ++ rest) = .ok (j, rest) := by
  cases j with
  | null => rfl
  | bool b => cases b <;> rfl
  | int n =>
    have hread := @readWith_numeral rest onList onObject numberStyle _
      (Numeral.proper_toDigits (decide (n < 0)) n.natAbs) _ (value?_toDigits hfits) hrest
    rw [write, intText_eq]
    simpa [Numeral.text] using hread
  | double d =>
    have hfinite : d.isFinite = true := hfits
    have hlt : d.magnitude < Double.infinity := of_decide_eq_true hfinite
    obtain ⟨n, hnegative, hproper, htext, hnearest, hmark⟩ :=
      numberStyle.exists_numeral d.isNegative hlt
    have hvalue := value?_of_nearest hfinite hnegative hnearest hmark
    rw [write, doubleText, if_pos hfinite, NumberStyle.text, htext, ← hnegative]
    exact readWith_numeral numberStyle hproper hvalue hrest
  | str s =>
    rw [write, stringText]
    change (readString (s.toList.flatMap stringChar ++ ['"'] ++ rest) >>= _) = _
    rw [List.append_assoc, List.singleton_append, readString_text]
    rfl
  | arr xs => exact absurd rfl (harr xs)
  | obj ms => exact absurd rfl (hobj ms)

end Values

/-! ## Lists -/

/-- A text that starts neither with a blank nor with the end of a list. -/
def Opens (text : List Char) : Prop := ∃ c cs, text = c :: cs ∧ isBlank c = false ∧ c ≠ ']'

theorem Opens.append {text : List Char} (h : Opens text) (rest : List Char) :
    Opens (text ++ rest) := by
  obtain ⟨c, cs, rfl, hblank, hclose⟩ := h
  exact ⟨c, cs ++ rest, rfl, hblank, hclose⟩

theorem Opens.skipBlanks_eq {text : List Char} (h : Opens text) : skipBlanks text = text := by
  obtain ⟨c, cs, rfl, hblank, -⟩ := h
  exact skipBlanks_cons hblank

theorem opens_of_isDigit {text : List Char} (hne : text ≠ []) (h : ∀ c ∈ text, c.isDigit = true) :
    Opens text := by
  obtain ⟨c, cs, rfl⟩ := List.exists_cons_of_ne_nil hne
  have hdigit := h c List.mem_cons_self
  refine ⟨c, cs, rfl, ?_, ?_⟩
  · cases hblank : isBlank c with
    | false => rfl
    | true =>
      have hnot := inNumeral_of_isBlank hblank
      simp [inNumeral, hdigit] at hnot
  · rintro rfl
    exact absurd hdigit (by decide)

theorem opens_signed (negative : Bool) {text : List Char} (h : Opens text) :
    Opens (if negative then '-' :: text else text) := by
  cases negative with
  | false => exact h
  | true => exact ⟨'-', text, rfl, rfl, by decide⟩

theorem opens_write (blanks : Blanks) (level : Nat) {j : Json} (hj : j.NumberFits) :
    Opens (j.write blanks level) := by
  cases j with
  | null => exact ⟨_, _, rfl, rfl, by decide⟩
  | bool b => cases b <;> exact ⟨_, _, rfl, rfl, by decide⟩
  | int n =>
    rw [write, intText_eq]
    exact opens_signed _ (opens_of_isDigit Nat.toDigits_ne_nil fun c hc =>
      Nat.isDigit_of_mem_toDigits (by norm_num) (by norm_num) hc)
  | double d =>
    have hfinite : d.isFinite = true := hj
    obtain ⟨n, -, hproper, htext, -⟩ :=
      numberStyle.exists_numeral d.isNegative (of_decide_eq_true hfinite)
    rw [write, doubleText, if_pos hfinite, NumberStyle.text, htext, Numeral.text]
    exact opens_signed _ ((opens_of_isDigit hproper.whole_ne_nil hproper.whole).append _)
  | str s => exact ⟨_, _, rfl, rfl, by decide⟩
  | arr xs =>
    cases xs with
    | nil => exact ⟨_, _, by rw [write], rfl, by decide⟩
    | cons x xs => exact ⟨_, _, by rw [write], rfl, by decide⟩
  | obj ms =>
    cases ms with
    | nil => exact ⟨_, _, by rw [write], rfl, by decide⟩
    | cons m ms => exact ⟨_, _, by rw [write], rfl, by decide⟩

section Lists

variable {α : Type} {element : Nat → Reader α} {f : Char} {fuel text after more : List Char}
  {index : Nat} {x : α}

theorem readElements_error {fault : Fault} (h : element index text = .error fault) :
    readElements element (f :: fuel) index text = .error fault := by
  rw [readElements, h]
  rfl

theorem readElements_last (h : element index text = .ok (x, after))
    (hafter : skipBlanks after = ']' :: rest) :
    readElements element (f :: fuel) index text = .ok ([x], rest) := by
  simp [readElements, h, hafter, bind, Except.bind, pure, Except.pure]

theorem readElements_next (h : element index text = .ok (x, after))
    (hafter : skipBlanks after = ',' :: more) (hmore : Opens (skipBlanks more)) :
    readElements element (f :: fuel) index text =
      (readElements element fuel (index + 1) (skipBlanks more)).map fun r => (x :: r.1, r.2) := by
  obtain ⟨c, cs, hcs, -, hclose⟩ := hmore
  rw [hcs, readElements]
  simp only [h, hafter, hcs, bind, Except.bind]
  split
  · rename_i hnil
    cases hnil
  · rename_i hcons
    cases hcons
    exact absurd rfl hclose
  · cases readElements element fuel (index + 1) (c :: cs) <;> rfl

variable {blanks : Blanks} {level : Nat} {form : α → Json} {fits : α → Prop} [DecidablePred fits]
  {closing : List Char}

/-- The elements of a list are read back one after the other, up to the first that does not fit. -/
theorem readElements_write (hblanks : blanks.Blank) (hclosing : ∀ c ∈ closing, isBlank c = true)
    (x : α) (xs : List α) (hopens : ∀ y ∈ x :: xs, Opens ((form y).write blanks level))
    (helement : ∀ y ∈ x :: xs, ∀ index rest, Stops inNumeral rest →
      element index ((form y).write blanks level ++ rest) =
        if fits y then .ok (y, rest) else .error .malformed)
    (hfuel : xs.length < fuel.length) (index : Nat) (rest : List Char) :
    readElements element fuel index ((form x).write blanks level ++
        ((if xs.isEmpty then [] else [',']) ++ (writeElements blanks level (xs.map form) ++
          (closing ++ ']' :: rest)))) =
      if ∀ y ∈ x :: xs, fits y then .ok (x :: xs, rest) else .error .malformed := by
  induction xs generalizing x fuel index with
  | nil =>
    obtain ⟨f, fuel, rfl⟩ := List.exists_cons_of_length_pos hfuel
    have hstops : Stops inNumeral (closing ++ ']' :: rest) :=
      stops_blanks_append hclosing (stops_cons.mpr rfl)
    have hread := helement x List.mem_cons_self index _ hstops
    simp only [List.isEmpty_nil, if_true, List.map_nil, writeElements, List.nil_append,
      List.forall_mem_singleton]
    by_cases hx : fits x
    · rw [if_pos hx] at hread ⊢
      refine readElements_last hread ?_
      rw [skipBlanks_append hclosing, skipBlanks_cons rfl]
    · rw [if_neg hx] at hread ⊢
      exact readElements_error hread
  | cons y ys ih =>
    obtain ⟨f, fuel, rfl⟩ := List.exists_cons_of_length_pos (Nat.zero_lt_of_lt hfuel)
    rw [List.forall_mem_cons] at hopens helement
    -- the text after the comma: blanks, and then the list from its second element on
    set tail := (form y).write blanks level ++ ((if ys.isEmpty then [] else [',']) ++
      (writeElements blanks level (ys.map form) ++ (closing ++ ']' :: rest))) with htail
    have hopen : Opens tail := (hopens.2 y List.mem_cons_self).append _
    have hskip : skipBlanks (blanks.lineAt level ++ tail) = tail := by
      rw [skipBlanks_append (hblanks.lineAt level), hopen.skipBlanks_eq]
    have htext : (if (y :: ys).isEmpty then [] else [',']) ++
        (writeElements blanks level ((y :: ys).map form) ++ (closing ++ ']' :: rest)) =
          ',' :: (blanks.lineAt level ++ tail) := by
      simp [writeElements, htail]
    have hread := helement.1 index (',' :: (blanks.lineAt level ++ tail)) (stops_cons.mpr rfl)
    rw [htext]
    by_cases hx : fits x
    · rw [if_pos hx] at hread
      rw [readElements_next hread (skipBlanks_cons rfl) (by rwa [hskip]), hskip,
        ih y hopens.2 helement.2 (by simpa using hfuel)]
      by_cases hys : ∀ z ∈ y :: ys, fits z
      · rw [if_pos hys, if_pos (List.forall_mem_cons.mpr ⟨hx, hys⟩)]
        rfl
      · rw [if_neg hys, if_neg fun hall => hys (List.forall_mem_cons.mp hall).2]
        rfl
    · rw [if_neg hx] at hread
      rw [if_neg fun hall => hx (List.forall_mem_cons.mp hall).1]
      exact readElements_error hread

theorem length_le_writeElements (blanks : Blanks) (level : Nat) (xs : List Json)
    (h : ∀ x ∈ xs, Opens (x.write blanks level)) :
    xs.length ≤ (writeElements blanks level xs).length := by
  induction xs with
  | nil => simp
  | cons x xs ih =>
    rw [List.forall_mem_cons] at h
    obtain ⟨⟨c, cs, htext, -⟩, hxs⟩ := h
    have hlength := ih hxs
    simp only [writeElements, htext, List.length_append, List.length_cons]
    omega

/-- A list is read back after its opening bracket. -/
theorem readList_write (hblanks : blanks.Blank) (xs : List α)
    (hopens : ∀ y ∈ xs, Opens ((form y).write blanks (level + 1)))
    (helement : ∀ y ∈ xs, ∀ index rest, Stops inNumeral rest →
      element index ((form y).write blanks (level + 1) ++ rest) =
        if fits y then .ok (y, rest) else .error .malformed) (rest : List Char) :
    ∃ body, (arr (xs.map form)).write blanks level = '[' :: body ∧
      readList element (body ++ rest) =
        if ∀ y ∈ xs, fits y then .ok (xs, rest) else .error .malformed := by
  cases xs with
  | nil =>
    refine ⟨[']'], by rw [List.map_nil, write], ?_⟩
    rw [if_pos (by simp)]
    rfl
  | cons x xs =>
    refine ⟨_, by rw [List.map_cons, write], ?_⟩
    set tail := (form x).write blanks (level + 1) ++ ((if xs.isEmpty then [] else [',']) ++
      (writeElements blanks (level + 1) (xs.map form) ++ (blanks.lineAt level ++ ']' :: rest)))
      with htail
    have htext : writeElements blanks (level + 1) (form x :: xs.map form) ++ blanks.lineAt level ++
        [']'] ++ rest = blanks.lineAt (level + 1) ++ tail := by
      simp [writeElements, htail]
    have hopen : Opens tail := (hopens x List.mem_cons_self).append _
    have hfuel : xs.length < tail.length := by
      have hlength := length_le_writeElements blanks (level + 1) (xs.map form)
        (List.forall_mem_map.mpr fun y hy => hopens y (List.mem_cons_of_mem x hy))
      rw [List.length_map] at hlength
      simp only [htail, List.length_append, List.length_cons]
      omega
    have hread := readElements_write hblanks (hblanks.lineAt level) x xs hopens helement hfuel 0 rest
    obtain ⟨c, cs, hcs, hblank, hclose⟩ := hopen
    rw [htext, readList, skipBlanks_append (hblanks.lineAt _), hcs, skipBlanks_cons hblank]
    rw [← htail, hcs] at hread
    split
    · rename_i hnil
      cases hnil
    · rename_i hcons
      cases hcons
      exact absurd rfl hclose
    · exact hread

end Lists

/-! ## Objects -/

section Objects

variable {α : Type} {name : Reader String} {member : List String → String → Reader α} {f : Char}
  {fuel text middle after more : List Char} {seen : List String} {key : String} {x : α}

theorem readMembers_error {fault : Fault} (hname : name text = .ok (key, middle))
    (h : member seen key middle = .error fault) :
    readMembers name member (f :: fuel) seen text = .error fault := by
  simp [readMembers, hname, h, bind, Except.bind]

theorem readMembers_last (hname : name text = .ok (key, middle))
    (h : member seen key middle = .ok (x, after)) (hafter : skipBlanks after = '\x7d' :: rest) :
    readMembers name member (f :: fuel) seen text = .ok ([(key, x)], rest) := by
  simp [readMembers, hname, h, hafter, bind, Except.bind, pure, Except.pure]

theorem readMembers_next (hname : name text = .ok (key, middle))
    (h : member seen key middle = .ok (x, after)) (hafter : skipBlanks after = ',' :: more)
    {text' : List Char} (hmore : skipBlanks more = '"' :: text') :
    readMembers name member (f :: fuel) seen text =
      (readMembers name member fuel (key :: seen) text').map fun r => ((key, x) :: r.1, r.2) := by
  simp only [readMembers, hname, h, hafter, hmore, bind, Except.bind]
  cases readMembers name member fuel (key :: seen) text' <;> rfl

variable {blanks : Blanks} {level : Nat} {closing : List Char}

/-- The text of a member from the inside of its name to its value. -/
def memberText (blanks : Blanks) (level : Nat) (m : String × Json) : List Char :=
  m.1.toList.flatMap stringChar ++ '"' :: ':' :: (blanks.afterColon ++ m.2.write blanks level)

theorem writeMembers_cons (m : String × Json) (ms : List (String × Json)) :
    writeMembers blanks level (m :: ms) = blanks.lineAt level ++ '"' :: (memberText blanks level m ++
      ((if ms.isEmpty then [] else [',']) ++ writeMembers blanks level ms)) := by
  simp [writeMembers, memberText, stringText]

theorem readString_memberText (m : String × Json) :
    readString (memberText blanks level m ++ rest) =
      .ok (m.1, ':' :: (blanks.afterColon ++ (m.2.write blanks level ++ rest))) := by
  rw [memberText, List.append_assoc, List.cons_append, List.cons_append, List.append_assoc]
  exact readString_text m.1

variable {form : α → Json} (fits : α → Prop) [DecidablePred fits]

/-- The members of an object are read back one after the other, up to the first that does not fit. Where
all names are distinct, the name of a member is not among the names before it. -/
theorem readMembers_write {p : Prop} (hblanks : blanks.Blank)
    (hclosing : ∀ c ∈ closing, isBlank c = true) (m : String × α) (ms : List (String × α))
    (hmember : ∀ y ∈ m :: ms, ∀ seen rest, (p → y.1 ∉ seen) → Stops inNumeral rest →
      member seen y.1 (':' :: (blanks.afterColon ++ ((form y.2).write blanks level ++ rest))) =
        if fits y.2 then .ok (y.2, rest) else .error .malformed)
    (hdistinct : p → (seen ++ (m :: ms).map Prod.fst).Nodup)
    (hfuel : ms.length < fuel.length) (rest : List Char) :
    readMembers readString member fuel seen (memberText blanks level (m.map id form) ++
        ((if ms.isEmpty then [] else [',']) ++ (writeMembers blanks level (ms.map (Prod.map id form)) ++
          (closing ++ '\x7d' :: rest)))) =
      if ∀ y ∈ m :: ms, fits y.2 then .ok (m :: ms, rest) else .error .malformed := by
  have hnew : p → m.1 ∉ seen := fun hp hmem =>
    List.disjoint_of_nodup_append (hdistinct hp) hmem List.mem_cons_self
  induction ms generalizing m fuel seen with
  | nil =>
    obtain ⟨f, fuel, rfl⟩ := List.exists_cons_of_length_pos hfuel
    have hstops : Stops inNumeral (closing ++ '\x7d' :: rest) :=
      stops_blanks_append hclosing (stops_cons.mpr rfl)
    have hread := hmember m List.mem_cons_self seen _ hnew hstops
    simp only [List.isEmpty_nil, if_true, List.map_nil, writeMembers, List.nil_append,
      List.forall_mem_singleton]
    by_cases hm : fits m.2
    · rw [if_pos hm] at hread ⊢
      refine readMembers_last (readString_memberText _) hread ?_
      rw [skipBlanks_append hclosing, skipBlanks_cons rfl]
    · rw [if_neg hm] at hread ⊢
      exact readMembers_error (readString_memberText _) hread
  | cons m' ms ih =>
    obtain ⟨f, fuel, rfl⟩ := List.exists_cons_of_length_pos (Nat.zero_lt_of_lt hfuel)
    rw [List.forall_mem_cons] at hmember
    -- the text after the comma: blanks, a quote, and then the object from its second name on
    set tail := memberText blanks level (m'.map id form) ++ ((if ms.isEmpty then [] else [',']) ++
      (writeMembers blanks level (ms.map (Prod.map id form)) ++ (closing ++ '\x7d' :: rest)))
      with htail
    have hskip : skipBlanks (blanks.lineAt level ++ '"' :: tail) = '"' :: tail := by
      rw [skipBlanks_append (hblanks.lineAt level), skipBlanks_cons rfl]
    have htext : (if (m' :: ms).isEmpty then [] else [',']) ++
        (writeMembers blanks level ((m' :: ms).map (Prod.map id form)) ++
          (closing ++ '\x7d' :: rest)) = ',' :: (blanks.lineAt level ++ '"' :: tail) := by
      simp [writeMembers_cons, htail]
    have hread := hmember.1 seen (',' :: (blanks.lineAt level ++ '"' :: tail)) hnew
      (stops_cons.mpr rfl)
    have hdistinct' (hp : p) : (m.1 :: seen ++ (m' :: ms).map Prod.fst).Nodup :=
      List.nodup_middle.mp (hdistinct hp)
    have hnew' (hp : p) : m'.1 ∉ m.1 :: seen := fun hmem =>
      List.disjoint_of_nodup_append (hdistinct' hp) hmem List.mem_cons_self
    have hall : (∀ y ∈ m :: m' :: ms, fits y.2) ↔ fits m.2 ∧ ∀ y ∈ m' :: ms, fits y.2 :=
      List.forall_mem_cons
    rw [htext]
    by_cases hm : fits m.2
    · rw [if_pos hm] at hread
      rw [readMembers_next (readString_memberText _) hread (skipBlanks_cons rfl) hskip]
      change (readMembers readString member fuel (m.1 :: seen) tail).map _ = _
      rw [ih m' hmember.2 hdistinct' (by simpa using hfuel) hnew']
      by_cases hms : ∀ y ∈ m' :: ms, fits y.2
      · rw [if_pos hms, if_pos (hall.mpr ⟨hm, hms⟩)]
        rfl
      · rw [if_neg hms, if_neg (mt hall.mp fun h => hms h.2)]
        rfl
    · rw [if_neg hm] at hread
      rw [if_neg (mt hall.mp fun h => hm h.1)]
      exact readMembers_error (readString_memberText _) hread

theorem length_le_writeMembers (blanks : Blanks) (level : Nat) (ms : List (String × Json)) :
    ms.length ≤ (writeMembers blanks level ms).length := by
  induction ms with
  | nil => simp
  | cons m ms ih =>
    simp only [writeMembers_cons, List.length_append, List.length_cons]
    omega

/-- An object is read back after its opening bracket. -/
theorem readObject_write (hblanks : blanks.Blank) (ms : List (String × α))
    (hmember : ∀ y ∈ ms, ∀ seen rest, ((ms.map Prod.fst).Nodup → y.1 ∉ seen) →
      Stops inNumeral rest →
      member seen y.1 (':' :: (blanks.afterColon ++ ((form y.2).write blanks (level + 1) ++ rest))) =
        if fits y.2 then .ok (y.2, rest) else .error .malformed) (rest : List Char) :
    ∃ body, (obj (ms.map (Prod.map id form))).write blanks level = '\x7b' :: body ∧
      readObject readString member (body ++ rest) =
        if ∀ y ∈ ms, fits y.2 then .ok (ms, rest) else .error .malformed := by
  cases ms with
  | nil =>
    refine ⟨['\x7d'], by rw [List.map_nil, write], ?_⟩
    rw [if_pos (by simp)]
    rfl
  | cons m ms =>
    refine ⟨_, by rw [List.map_cons, write], ?_⟩
    set tail := memberText blanks (level + 1) (m.map id form) ++ ((if ms.isEmpty then [] else [',']) ++
      (writeMembers blanks (level + 1) (ms.map (Prod.map id form)) ++
        (blanks.lineAt level ++ '\x7d' :: rest))) with htail
    have htext : writeMembers blanks (level + 1) (m.map id form :: ms.map (Prod.map id form)) ++
        blanks.lineAt level ++ ['\x7d'] ++ rest = blanks.lineAt (level + 1) ++ '"' :: tail := by
      simp [writeMembers_cons, htail]
    have hfuel : ms.length < tail.length := by
      have hlength := length_le_writeMembers blanks (level + 1) (ms.map (Prod.map id form))
      rw [List.length_map] at hlength
      simp only [htail, List.length_append, List.length_cons]
      omega
    rw [htext, readObject, skipBlanks_append (hblanks.lineAt _), skipBlanks_cons rfl]
    exact readMembers_write fits hblanks (hblanks.lineAt level) m ms hmember id hfuel rest

end Objects

/-! ## Values -/

/-- A reader goes on with what it has read, if that fits. -/
theorem ite_bind_eq {α β : Type} {p q : Prop} [Decidable p] [Decidable q] (hpq : q ↔ p) {a : α}
    {b : β} {f : α → Except Fault β} (h : f a = .ok b) :
    ((if p then .ok a else .error .malformed) >>= f) = if q then .ok b else .error .malformed := by
  by_cases hp : p
  · rw [if_pos hp, if_pos (hpq.mpr hp)]
    exact h
  · rw [if_neg hp, if_neg (mt hpq.mp hp)]
    rfl

theorem readColon_cons : readColon (':' :: rest) = .ok rest := rfl

theorem write_arr (blanks : Blanks) (level : Nat) (xs : List Json) :
    ∃ body, (arr xs).write blanks level = '[' :: body := by
  cases xs <;> exact ⟨_, by rw [write]⟩

theorem write_obj (blanks : Blanks) (level : Nat) (ms : List (String × Json)) :
    ∃ body, (obj ms).write blanks level = '\x7b' :: body := by
  cases ms <;> exact ⟨_, by rw [write]⟩

theorem read_blanks {bs : List Char} (h : ∀ c ∈ bs, isBlank c = true) (depth : Nat) :
    Scan.keep.read depth (bs ++ rest) = Scan.keep.read depth rest := by
  cases depth <;> exact readWith_blanks h

/-- A value is read back from its text, unless it nests too deep. -/
theorem read_write {blanks : Blanks} (hblanks : blanks.Blank) (j : Json) (hj : j.Writable)
    (depth level : Nat) {rest : List Char} (hrest : Stops inNumeral rest) :
    Scan.keep.read depth (j.write blanks level ++ rest) =
      if j.depth ≤ depth then .ok (j, rest) else .error .malformed := by
  induction j generalizing depth level rest with
  | arr xs ih =>
    rw [writable_arr] at hj
    cases depth with
    | zero =>
      obtain ⟨body, hbody⟩ := write_arr blanks level xs
      rw [hbody, if_neg (by simp [Json.depth])]
      rfl
    | succ depth =>
      have hlist : ∃ body, (arr (xs.map id)).write blanks level = '[' :: body ∧
          readList (fun _ => Scan.keep.read depth) (body ++ rest) =
            if ∀ y ∈ xs, y.depth ≤ depth then .ok (xs, rest) else .error .malformed :=
        readList_write hblanks xs
          (fun y hy => opens_write blanks (level + 1) (writable_iff.mp (hj y hy)).1)
          (fun y hy _ _ hstops => ih y hy (hj y hy) depth (level + 1) hstops) rest
      obtain ⟨body, hbody, hread⟩ := hlist
      rw [List.map_id] at hbody
      rw [hbody]
      change (readList (fun _ => Scan.keep.read depth) (body ++ rest) >>= _) = _
      rw [hread]
      exact ite_bind_eq depth_arr_le rfl
  | obj ms ih =>
    rw [writable_obj] at hj
    cases depth with
    | zero =>
      obtain ⟨body, hbody⟩ := write_obj blanks level ms
      rw [hbody, if_neg (by simp [Json.depth])]
      rfl
    | succ depth =>
      have hobject : ∃ body, (obj (ms.map (Prod.map id id))).write blanks level = '\x7b' :: body ∧
          readObject readString (fun _ _ text => do Scan.keep.read depth (← readColon text))
            (body ++ rest) =
              if ∀ y ∈ ms, y.2.depth ≤ depth then .ok (ms, rest) else .error .malformed := by
        refine readObject_write (·.depth ≤ depth) hblanks ms (fun y hy _ rest _ hstops => ?_) rest
        rw [readColon_cons]
        change Scan.keep.read depth _ = _
        rw [read_blanks hblanks.afterColon]
        exact ih y hy (hj y hy) depth (level + 1) hstops
      obtain ⟨body, hbody, hread⟩ := hobject
      rw [Prod.map_id, List.map_id] at hbody
      rw [hbody]
      change (readObject readString (fun _ _ text => do Scan.keep.read depth (← readColon text))
        (body ++ rest) >>= _) = _
      rw [hread]
      exact ite_bind_eq depth_obj_le rfl
  | _ =>
    rw [if_pos (by simp [Json.depth])]
    cases depth <;>
      exact readWith_scalar blanks level (writable_iff.mp hj).1 (by simp) (by simp) hrest

end AnnotatedToC.Json
