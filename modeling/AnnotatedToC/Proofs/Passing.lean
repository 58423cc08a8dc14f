import AnnotatedToC.Proofs.JsonText
import AnnotatedToC.Proofs.Readers

/-!
# Values that are passed over

How a value begins decides what it is, and a list or an object is read one step after the other. A value
that can be kept can also be passed over, up to the same place: passing over checks less, and it may go
as deep as the text is long, which is deeper than any value in it.
-/
namespace AnnotatedToC.Json

variable {α : Type} {text rest : List Char}

/-! ## One step -/

theorem opens_skipBlanks {c : Char} {cs : List Char} (h : skipBlanks text = c :: cs) (hc : c ≠ ']') :
    Opens (skipBlanks text) := by
  refine ⟨c, cs, h, ?_, hc⟩
  have hhead := List.head?_dropWhile_not isBlank text
  rw [← skipBlanks, h] at hhead
  simpa using hhead

theorem readElements_eq_ok {element : Nat → Reader α} {fuel : List Char} {index : Nat} {xs : List α}
    (h : readElements element fuel index text = .ok (xs, rest)) :
    ∃ f fuel' x after, fuel = f :: fuel' ∧ element index text = .ok (x, after) ∧
      (skipBlanks after = ']' :: rest ∧ xs = [x] ∨
        ∃ more xs', skipBlanks after = ',' :: more ∧ Opens (skipBlanks more) ∧
          readElements element fuel' (index + 1) (skipBlanks more) = .ok (xs', rest) ∧
          xs = x :: xs') := by
  cases fuel with
  | nil => cases h
  | cons f fuel =>
    rw [readElements] at h
    obtain ⟨⟨x, after⟩, hx, h⟩ := bind_eq_ok.mp h
    refine ⟨f, fuel, x, after, rfl, hx, ?_⟩
    dsimp only at h
    split at h
    · cases h
    · cases h
      exact .inl ⟨by assumption, rfl⟩
    · rename_i more hafter
      split at h
      · cases h
      · cases h
      · rename_i hnil hclose
        obtain ⟨⟨xs', after'⟩, hxs, h⟩ := bind_eq_ok.mp h
        cases h
        obtain ⟨c, cs, hcs⟩ := List.exists_cons_of_ne_nil hnil
        have hc : c ≠ ']' := by
          rintro rfl
          exact hclose cs hcs
        exact .inr ⟨more, xs', hafter, opens_skipBlanks hcs hc, hxs, rfl⟩
    · cases h

theorem readMembers_eq_ok {name : Reader String} {member : List String → String → Reader α}
    {fuel : List Char} {seen : List String} {ms : List (String × α)}
    (h : readMembers name member fuel seen text = .ok (ms, rest)) :
    ∃ f fuel' key middle x after, fuel = f :: fuel' ∧ name text = .ok (key, middle) ∧
      member seen key middle = .ok (x, after) ∧
      (skipBlanks after = '\x7d' :: rest ∧ ms = [(key, x)] ∨
        ∃ more text' ms', skipBlanks after = ',' :: more ∧ skipBlanks more = '"' :: text' ∧
          readMembers name member fuel' (key :: seen) text' = .ok (ms', rest) ∧
          ms = (key, x) :: ms') := by
  cases fuel with
  | nil => cases h
  | cons f fuel =>
    rw [readMembers] at h
    obtain ⟨⟨key, middle⟩, hkey, h⟩ := bind_eq_ok.mp h
    obtain ⟨⟨x, after⟩, hx, h⟩ := bind_eq_ok.mp h
    refine ⟨f, fuel, key, middle, x, after, rfl, hkey, hx, ?_⟩
    dsimp only at h
    split at h
    · cases h
    · cases h
      exact .inl ⟨by assumption, rfl⟩
    · rename_i more hafter
      split at h
      · cases h
      · rename_i text' hmore
        obtain ⟨⟨ms', after'⟩, hms, h⟩ := bind_eq_ok.mp h
        cases h
        exact .inr ⟨more, text', ms', hafter, hmore, hms, rfl⟩
      · cases h
    · cases h

/-! ## Lengths -/

theorem length_skipBlanks_le (text : List Char) : (skipBlanks text).length ≤ text.length :=
  (List.dropWhile_suffix isBlank).length_le

theorem length_readHex {n : Nat} (h : readHex text = .ok (n, rest)) : rest.length ≤ text.length := by
  unfold readHex at h
  split at h
  · cases h
  · split at h
    · split_ifs at h
      cases h
      rw [List.length_drop]
      omega
    · cases h

theorem length_readWord {word : List Char} (h : readWord word text = .ok rest) :
    rest.length ≤ text.length := by
  fun_induction readWord word text with
  | case1 => cases h; exact le_rfl
  | case2 => cases h
  | case3 ws w text' ih => exact (ih h).trans (Nat.le_succ _)
  | case4 => cases h

theorem length_readColon (h : readColon text = .ok rest) : rest.length ≤ text.length := by
  have hlength := length_skipBlanks_le text
  unfold readColon at h
  split at h
  · cases h
  · rename_i htext
    cases h
    rw [htext, List.length_cons] at hlength
    omega
  · cases h

theorem length_readTrailing {high : Nat} {c : Char} (h : readTrailing high text = .ok (c, rest)) :
    rest.length ≤ text.length := by
  unfold readTrailing at h
  split at h
  · cases h
  · cases h
  · obtain ⟨⟨low, after⟩, hlow, h⟩ := bind_eq_ok.mp h
    have hlength := length_readHex hlow
    dsimp only at h
    split_ifs at h
    obtain ⟨-, rfl⟩ := Prod.mk.inj (pure_eq_ok.mp h)
    simp only [List.length_cons]
    omega
  · cases h

theorem length_readCode {c : Char} (h : readCode text = .ok (c, rest)) : rest.length ≤ text.length := by
  obtain ⟨⟨n, after⟩, hn, h⟩ := bind_eq_ok.mp h
  have hlength := length_readHex hn
  dsimp only at h
  split_ifs at h
  · exact (length_readTrailing h).trans hlength
  · cases h
    exact hlength

theorem length_readEscape {code : Reader Char}
    (hcode : ∀ {text rest c}, code text = .ok (c, rest) → rest.length ≤ text.length) {c : Char}
    (h : readEscape code text = .ok (c, rest)) : rest.length < text.length := by
  unfold readEscape at h
  split at h
  case h_10 => exact Nat.lt_succ_of_le (hcode h)
  all_goals
    cases h
    try exact Nat.lt_succ_self _

theorem length_readString {s : String} (h : readString text = .ok (s, rest)) :
    rest.length ≤ text.length := by
  obtain ⟨⟨cs, after⟩, hcs, h⟩ := bind_eq_ok.mp h
  cases h
  suffices h : ∀ fuel text cs, readChars readCode fuel text = .ok (cs, rest) →
      rest.length ≤ text.length from h _ _ _ hcs
  intro fuel text cs h
  fun_induction readChars readCode fuel text generalizing cs with
  | case1 => cases h
  | case2 => cases h
  | case3 =>
    cases h
    exact Nat.le_succ _
  | case4 f fuel text ih =>
    obtain ⟨⟨c, after⟩, hc, h⟩ := bind_eq_ok.mp h
    obtain ⟨⟨cs', after'⟩, hcs, h⟩ := bind_eq_ok.mp h
    cases h
    have hescape := length_readEscape length_readCode hc
    have hrest := ih _ _ hcs
    simp only [List.length_cons] at *
    omega
  | case5 => cases h
  | case6 f fuel c text hc hq hb ih =>
    obtain ⟨⟨cs', after'⟩, hcs, h⟩ := bind_eq_ok.mp h
    cases h
    exact (ih _ hcs).trans (Nat.le_succ _)

/-! ## Numerals -/

section Numerals

variable {atEnd : Fault}

/-- The fault at the end of the text does not matter for what is read. -/
theorem readDigits_eq_ok {digits : List Char} (h : readDigits atEnd text = .ok (digits, rest))
    (atEnd' : Fault) :
    readDigits atEnd' text = .ok (digits, rest) ∧ rest.length ≤ text.length := by
  cases text with
  | nil => cases h
  | cons c text =>
    refine ⟨h, ?_⟩
    rw [readDigits] at h
    split_ifs at h
    cases h
    exact (List.dropWhile_suffix Char.isDigit).length_le.trans (Nat.le_succ _)

theorem readWhole_eq_ok {digits : List Char} (h : readWhole atEnd text = .ok (digits, rest))
    (atEnd' : Fault) :
    readWhole atEnd' text = .ok (digits, rest) ∧ rest.length ≤ text.length := by
  unfold readWhole at h ⊢
  split at h
  · refine ⟨h, ?_⟩
    split_ifs at h
    cases h
    exact Nat.le_succ _
  · exact readDigits_eq_ok h atEnd'

theorem readFraction_eq_ok {fraction : Option (List Char)}
    (h : readFraction atEnd text = .ok (fraction, rest)) (atEnd' : Fault) :
    readFraction atEnd' text = .ok (fraction, rest) ∧ rest.length ≤ text.length := by
  unfold readFraction at h ⊢
  split at h
  · obtain ⟨⟨digits, after⟩, hdigits, h⟩ := bind_eq_ok.mp h
    cases h
    obtain ⟨hdigits, hlength⟩ := readDigits_eq_ok hdigits atEnd'
    rw [hdigits]
    exact ⟨rfl, hlength.trans (Nat.le_succ _)⟩
  · cases h
    exact ⟨rfl, le_rfl⟩

theorem readExponentDigits_eq_ok {negative : Bool} {exponent : Option Int}
    (h : readExponentDigits atEnd negative text = .ok (exponent, rest)) (atEnd' : Fault) :
    readExponentDigits atEnd' negative text = .ok (exponent, rest) ∧ rest.length ≤ text.length := by
  obtain ⟨⟨digits, after⟩, hdigits, h⟩ := bind_eq_ok.mp h
  obtain ⟨hdigits, hlength⟩ := readDigits_eq_ok hdigits atEnd'
  rw [readExponentDigits, hdigits]
  exact ⟨h, by cases h; exact hlength⟩

theorem readSignedExponent_eq_ok {exponent : Option Int}
    (h : readSignedExponent atEnd text = .ok (exponent, rest)) (atEnd' : Fault) :
    readSignedExponent atEnd' text = .ok (exponent, rest) ∧ rest.length ≤ text.length := by
  unfold readSignedExponent at h ⊢
  split at h
  · exact (readExponentDigits_eq_ok h atEnd').imp_right (Nat.le_succ_of_le ·)
  · exact (readExponentDigits_eq_ok h atEnd').imp_right (Nat.le_succ_of_le ·)
  · exact readExponentDigits_eq_ok h atEnd'

theorem readExponent_eq_ok {exponent : Option Int}
    (h : readExponent atEnd text = .ok (exponent, rest)) (atEnd' : Fault) :
    readExponent atEnd' text = .ok (exponent, rest) ∧ rest.length ≤ text.length := by
  unfold readExponent at h ⊢
  split at h
  · exact (readSignedExponent_eq_ok h atEnd').imp_right (Nat.le_succ_of_le ·)
  · exact (readSignedExponent_eq_ok h atEnd').imp_right (Nat.le_succ_of_le ·)
  · cases h
    exact ⟨rfl, le_rfl⟩

theorem readNumeral_eq_ok {negative : Bool} {n : Numeral}
    (h : readNumeral atEnd negative text = .ok (n, rest)) (atEnd' : Fault) :
    readNumeral atEnd' negative text = .ok (n, rest) ∧ rest.length ≤ text.length := by
  obtain ⟨⟨whole, after⟩, hwhole, h⟩ := bind_eq_ok.mp h
  obtain ⟨⟨fraction, after'⟩, hfraction, h⟩ := bind_eq_ok.mp h
  obtain ⟨⟨exponent, after''⟩, hexponent, h⟩ := bind_eq_ok.mp h
  cases h
  obtain ⟨hwhole, hlength⟩ := readWhole_eq_ok hwhole atEnd'
  obtain ⟨hfraction, hlength'⟩ := readFraction_eq_ok hfraction atEnd'
  obtain ⟨hexponent, hlength''⟩ := readExponent_eq_ok hexponent atEnd'
  refine ⟨?_, hlength''.trans (hlength'.trans hlength)⟩
  exact bind_eq_ok.mpr ⟨_, hwhole, bind_eq_ok.mpr ⟨_, hfraction, bind_eq_ok.mpr ⟨_, hexponent, rfl⟩⟩⟩

end Numerals

/-! ## How a value begins -/

/-- Truth values and numbers. -/
def IsPlain : Json → Prop
  | .bool _ | .int _ | .double _ => True
  | _ => False

theorem Numeral.isPlain_value? {n : Numeral} {j : Json} (h : n.value? = some j) : j.IsPlain := by
  unfold Numeral.value? at h
  split at h
  · cases h
    trivial
  · obtain ⟨d, rfl, -⟩ := Numeral.double?_eq_some h
    trivial

/-- The kinds of values by their first character. -/
inductive Begins (depth : Nat) (text : List Char) : Json → List Char → Prop
  | null {t rest : List Char} : skipBlanks text = 'n' :: t → readWord ['u', 'l', 'l'] t = .ok rest →
      Begins depth text .null rest
  | string {t rest : List Char} {s : String} : skipBlanks text = '"' :: t →
      readString t = .ok (s, rest) → Begins depth text (.str s) rest
  | list {t rest : List Char} {below : Nat} {xs : List Json} : skipBlanks text = '[' :: t →
      depth = below + 1 → readList (fun _ => Scan.keep.read below) t = .ok (xs, rest) →
      Begins depth text (.arr xs) rest
  | object {t rest : List Char} {below : Nat} {ms : List (String × Json)} :
      skipBlanks text = '\x7b' :: t → depth = below + 1 →
      readObject readString (fun _ _ text => do Scan.keep.read below (← readColon text)) t =
        .ok (ms, rest) →
      Begins depth text (.obj ms) rest
  | plain {c : Char} {t rest : List Char} {j : Json} : skipBlanks text = c :: t →
      c ∉ ['n', '"', '[', '\x7b', ']'] → j.IsPlain → rest.length ≤ text.length →
      (∀ onList onObject, Scan.skip.readWith onList onObject text = .ok ((), rest)) →
      Begins depth text j rest

theorem readNumber_eq_ok {negative : Bool} {j : Json}
    (h : Scan.keep.readNumber negative text = .ok (j, rest)) :
    j.IsPlain ∧ rest.length ≤ text.length ∧ Scan.skip.readNumber negative text = .ok ((), rest) := by
  obtain ⟨⟨n, after⟩, hn, h⟩ := bind_eq_ok.mp h
  obtain ⟨j', hj, h⟩ := bind_eq_ok.mp h
  cases h
  obtain ⟨hskip, hlength⟩ := readNumeral_eq_ok hn Scan.skip.numeralEnd
  refine ⟨?_, hlength, bind_eq_ok.mpr ⟨_, hskip, rfl⟩⟩
  simp only [Scan.keep] at hj
  split at hj
  · cases hj
    exact Numeral.isPlain_value? (by assumption)
  · cases hj

theorem not_isDigit_of_mem {c : Char} (h : c ∈ ['n', '"', '[', '\x7b', ']']) : c.isDigit = false := by
  simp only [List.mem_cons, List.not_mem_nil, or_false] at h
  rcases h with rfl | rfl | rfl | rfl | rfl <;> rfl

/-- A digit begins a number. -/
theorem Scan.readWith_digit (scan : Scan α) {onList onObject : Reader α} {c : Char} {t : List Char}
    (htext : skipBlanks text = c :: t) (hc : c.isDigit = true) :
    scan.readWith onList onObject text = scan.readNumber false (c :: t) := by
  rw [Scan.readWith, htext]
  split
  all_goals
    rename_i h
    cases h
  iterate 7 exact absurd hc (by decide)
  · rw [if_pos hc]

theorem readWith_begins {onList onObject : Reader Json} {depth : Nat} {j : Json}
    (h : Scan.keep.readWith onList onObject text = .ok (j, rest))
    (hlist : ∀ t, skipBlanks text = '[' :: t → onList t = .ok (j, rest) → Begins depth text j rest)
    (hobject : ∀ t, skipBlanks text = '\x7b' :: t → onObject t = .ok (j, rest) →
      Begins depth text j rest) : Begins depth text j rest := by
  have hlength := length_skipBlanks_le text
  unfold Scan.readWith at h
  split at h
  · cases h
  · rename_i t htext
    obtain ⟨after, hword, h⟩ := bind_eq_ok.mp h
    cases h
    exact .null htext hword
  · rename_i t htext
    obtain ⟨after, hword, h⟩ := bind_eq_ok.mp h
    cases h
    have hword' := length_readWord hword
    rw [htext, List.length_cons] at hlength
    refine .plain htext (by decide) trivial (by omega) fun onList onObject => ?_
    rw [Scan.readWith, htext]
    exact bind_eq_ok.mpr ⟨_, hword, rfl⟩
  · rename_i t htext
    obtain ⟨after, hword, h⟩ := bind_eq_ok.mp h
    cases h
    have hword' := length_readWord hword
    rw [htext, List.length_cons] at hlength
    refine .plain htext (by decide) trivial (by omega) fun onList onObject => ?_
    rw [Scan.readWith, htext]
    exact bind_eq_ok.mpr ⟨_, hword, rfl⟩
  · rename_i t htext
    obtain ⟨⟨s, after⟩, hs, h⟩ := bind_eq_ok.mp h
    cases h
    exact .string htext hs
  · rename_i t htext
    exact hlist t htext h
  · rename_i t htext
    exact hobject t htext h
  · rename_i t htext
    obtain ⟨hplain, hnumber, hskip⟩ := readNumber_eq_ok h
    rw [htext, List.length_cons] at hlength
    refine .plain htext (by decide) hplain (by omega) fun onList onObject => ?_
    rw [Scan.readWith, htext]
    exact hskip
  · rename_i c t _ _ _ _ _ _ _ htext
    split_ifs at h with hc
    obtain ⟨hplain, hnumber, hskip⟩ := readNumber_eq_ok h
    have hmem : c ∉ ['n', '"', '[', '\x7b', ']'] := by
      intro hmem
      rw [not_isDigit_of_mem hmem] at hc
      cases hc
    rw [htext] at hlength
    refine .plain htext hmem hplain (hnumber.trans hlength) fun onList onObject => ?_
    rw [Scan.readWith_digit _ htext hc]
    exact hskip

theorem begins_of_read {depth : Nat} {j : Json} (h : Scan.keep.read depth text = .ok (j, rest)) :
    Begins depth text j rest := by
  cases depth with
  | zero =>
    refine readWith_begins h ?_ ?_
    · intro t _ h
      cases h
    · intro t _ h
      cases h
  | succ below =>
    refine readWith_begins h ?_ ?_
    · intro t htext h
      obtain ⟨⟨xs, after⟩, hxs, h⟩ := bind_eq_ok.mp h
      cases h
      exact .list htext rfl hxs
    · intro t htext h
      obtain ⟨⟨ms, after⟩, hms, h⟩ := bind_eq_ok.mp h
      cases h
      exact .object htext rfl hms

/-! ## Depth and length -/

section Sizes

variable {size : α → Nat}

theorem length_readElements {element : Nat → Reader α}
    (helement : ∀ {index text x rest}, element index text = .ok (x, rest) →
      size x ≤ text.length ∧ rest.length ≤ text.length)
    {fuel : List Char} {index : Nat} {xs : List α}
    (h : readElements element fuel index text = .ok (xs, rest)) :
    (∀ x ∈ xs, size x ≤ text.length) ∧ rest.length ≤ text.length := by
  induction fuel generalizing index text xs with
  | nil => cases h
  | cons f fuel ih =>
    obtain ⟨_, _, x, after, hfuel, hx, hend | ⟨more, xs', hafter, -, hxs, rfl⟩⟩ :=
      readElements_eq_ok h
    · obtain ⟨hend, rfl⟩ := hend
      have hsize := helement hx
      have hblanks := length_skipBlanks_le after
      rw [hend, List.length_cons] at hblanks
      exact ⟨by simpa using hsize.1, by omega⟩
    · cases hfuel
      obtain ⟨hsizes, hrest⟩ := ih hxs
      have hsize := helement hx
      have hblanks := length_skipBlanks_le after
      have hblanks' := length_skipBlanks_le more
      rw [hafter, List.length_cons] at hblanks
      have hle : (skipBlanks more).length ≤ text.length := by omega
      exact ⟨List.forall_mem_cons.mpr ⟨hsize.1, fun y hy => (hsizes y hy).trans hle⟩, hrest.trans hle⟩

theorem length_readList {element : Nat → Reader α}
    (helement : ∀ {index text x rest}, element index text = .ok (x, rest) →
      size x ≤ text.length ∧ rest.length ≤ text.length)
    {xs : List α} (h : readList element text = .ok (xs, rest)) :
    (∀ x ∈ xs, size x ≤ text.length) ∧ rest.length ≤ text.length := by
  have hblanks := length_skipBlanks_le text
  unfold readList at h
  split at h
  · cases h
  · rename_i htext
    cases h
    rw [htext, List.length_cons] at hblanks
    exact ⟨by simp, by omega⟩
  · obtain ⟨hsizes, hrest⟩ := length_readElements helement h
    exact ⟨fun x hx => (hsizes x hx).trans hblanks, hrest.trans hblanks⟩

theorem length_readMembers {member : List String → String → Reader α}
    (hmember : ∀ {seen key text x rest}, member seen key text = .ok (x, rest) →
      size x ≤ text.length ∧ rest.length ≤ text.length)
    {fuel : List Char} {seen : List String} {ms : List (String × α)}
    (h : readMembers readString member fuel seen text = .ok (ms, rest)) :
    (∀ m ∈ ms, size m.2 ≤ text.length) ∧ rest.length ≤ text.length := by
  induction fuel generalizing seen text ms with
  | nil => cases h
  | cons f fuel ih =>
    obtain ⟨_, _, key, middle, x, after, hfuel, hkey, hx, hend | ⟨more, text', ms', hafter, hmore, hms, rfl⟩⟩ :=
      readMembers_eq_ok h
    · obtain ⟨hend, rfl⟩ := hend
      have hsize := hmember hx
      have hname := length_readString hkey
      have hblanks := length_skipBlanks_le after
      rw [hend, List.length_cons] at hblanks
      exact ⟨by simpa using hsize.1.trans hname, by omega⟩
    · cases hfuel
      obtain ⟨hsizes, hrest⟩ := ih hms
      have hsize := hmember hx
      have hname := length_readString hkey
      have hblanks := length_skipBlanks_le after
      have hblanks' := length_skipBlanks_le more
      rw [hafter, List.length_cons] at hblanks
      rw [hmore, List.length_cons] at hblanks'
      have hle : text'.length ≤ text.length := by omega
      exact ⟨List.forall_mem_cons.mpr
        ⟨hsize.1.trans hname, fun m hm => (hsizes m hm).trans hle⟩, hrest.trans hle⟩

theorem length_readObject {member : List String → String → Reader α}
    (hmember : ∀ {seen key text x rest}, member seen key text = .ok (x, rest) →
      size x ≤ text.length ∧ rest.length ≤ text.length)
    {ms : List (String × α)} (h : readObject readString member text = .ok (ms, rest)) :
    (∀ m ∈ ms, size m.2 ≤ text.length) ∧ rest.length ≤ text.length := by
  have hblanks := length_skipBlanks_le text
  unfold readObject at h
  split at h
  · cases h
  · rename_i htext
    cases h
    rw [htext, List.length_cons] at hblanks
    exact ⟨by simp, by omega⟩
  · rename_i htext
    rw [htext, List.length_cons] at hblanks
    obtain ⟨hsizes, hrest⟩ := length_readMembers hmember h
    exact ⟨fun m hm => (hsizes m hm).trans (by omega), by omega⟩
  · cases h

end Sizes

/-- A value nests at most as deep as its text is long. -/
theorem depth_le_length {depth : Nat} {j : Json} (h : Scan.keep.read depth text = .ok (j, rest)) :
    j.depth ≤ text.length ∧ rest.length ≤ text.length := by
  have hblanks := length_skipBlanks_le text
  induction depth using Nat.strong_induction_on generalizing text rest j with
  | _ depth ih =>
    cases begins_of_read h with
    | null htext hword =>
      have hlength := length_readWord hword
      rw [htext, List.length_cons] at hblanks
      exact ⟨Nat.zero_le _, by omega⟩
    | string htext hs =>
      have hlength := length_readString hs
      rw [htext, List.length_cons] at hblanks
      exact ⟨Nat.zero_le _, by omega⟩
    | list htext hdepth hxs =>
      rw [htext, List.length_cons] at hblanks
      obtain ⟨hsizes, hrest⟩ := length_readList
        (fun hx => ih _ (by omega) hx (length_skipBlanks_le _)) hxs
      exact ⟨(depth_arr_le.mpr hsizes).trans hblanks, by omega⟩
    | object htext hdepth hms =>
      rw [htext, List.length_cons] at hblanks
      obtain ⟨hsizes, hrest⟩ := length_readObject (fun hx => by
        obtain ⟨after, hcolon, hx⟩ := bind_eq_ok.mp hx
        have hlength := length_readColon hcolon
        obtain ⟨hsize, hrest⟩ := ih _ (by omega) hx (length_skipBlanks_le _)
        exact ⟨hsize.trans hlength, hrest.trans hlength⟩) hms
      exact ⟨(depth_obj_le.mpr hsizes).trans hblanks, by omega⟩
    | plain htext hc hplain hlength hskip =>
      refine ⟨?_, hlength⟩
      cases j with
      | arr => cases hplain
      | obj => cases hplain
      | _ => exact Nat.zero_le _

/-! ## Passing over -/

theorem length_skipCode {c : Char} (h : skipCode text = .ok (c, rest)) : rest.length ≤ text.length := by
  obtain ⟨⟨n, after⟩, hn, h⟩ := bind_eq_ok.mp h
  cases h
  exact length_readHex hn

/-- An escape is passed over in one step, or in two if it stands for a pair of surrogates. -/
theorem readEscape_skip {c : Char} (h : readEscape readCode text = .ok (c, rest)) :
    (∃ c', readEscape skipCode text = .ok (c', rest)) ∨
      ∃ c' c'' middle, readEscape skipCode text = .ok (c', '\\' :: middle) ∧
        readEscape skipCode middle = .ok (c'', rest) := by
  unfold readEscape at h
  split at h
  case h_10 text =>
    obtain ⟨⟨n, after⟩, hn, h⟩ := bind_eq_ok.mp h
    have hskip : skipCode text = .ok (Char.ofNat n, after) := bind_eq_ok.mpr ⟨_, hn, rfl⟩
    dsimp only at h
    split_ifs at h
    · unfold readTrailing at h
      split at h
      · cases h
      · cases h
      · obtain ⟨⟨low, after'⟩, hlow, h⟩ := bind_eq_ok.mp h
        dsimp only at h
        split_ifs at h
        obtain ⟨-, rfl⟩ := Prod.mk.inj (pure_eq_ok.mp h)
        exact .inr ⟨_, _, _, hskip, bind_eq_ok.mpr ⟨_, hlow, rfl⟩⟩
      · cases h
    · cases h
      exact .inl ⟨_, hskip⟩
  all_goals
    cases h
    try exact .inl ⟨_, rfl⟩

/-- Passing over may take more steps than reading, but never more than there are characters. -/
theorem readChars_skip {fuel fuel' cs : List Char}
    (h : readChars readCode fuel text = .ok (cs, rest)) (hfuel : text.length ≤ fuel'.length) :
    ∃ cs', readChars skipCode fuel' text = .ok (cs', rest) := by
  have hstep {f : Char} {fuel t after cs : List Char} {c : Char}
      (hc : readEscape skipCode t = .ok (c, after))
      (hcs : readChars skipCode fuel after = .ok (cs, rest)) :
      readChars skipCode (f :: fuel) ('\\' :: t) = .ok (c :: cs, rest) :=
    bind_eq_ok.mpr ⟨_, hc, bind_eq_ok.mpr ⟨_, hcs, rfl⟩⟩
  fun_induction readChars readCode fuel text generalizing cs fuel' with
  | case1 => cases h
  | case2 => cases h
  | case3 f fuel text =>
    cases h
    obtain ⟨f', fuel', rfl⟩ := List.exists_cons_of_length_pos (Nat.lt_of_lt_of_le (by simp) hfuel)
    exact ⟨[], rfl⟩
  | case4 f fuel text ih =>
    obtain ⟨⟨c, after⟩, hc, h⟩ := bind_eq_ok.mp h
    obtain ⟨⟨cs', after'⟩, hcs, h⟩ := bind_eq_ok.mp h
    cases h
    obtain ⟨f', fuel', rfl⟩ := List.exists_cons_of_length_pos (Nat.lt_of_lt_of_le (by simp) hfuel)
    simp only [List.length_cons] at hfuel
    rcases readEscape_skip hc with ⟨c', hc'⟩ | ⟨c', c'', middle, hc', hc''⟩
    · have hlength := length_readEscape length_skipCode hc'
      obtain ⟨cs'', hcs''⟩ := ih _ hcs (show after.length ≤ fuel'.length by omega)
      exact ⟨_, hstep hc' hcs''⟩
    · -- the second surrogate begins with a backslash of its own, so there is fuel for it
      have hlength := length_readEscape length_skipCode hc'
      have hlength' := length_readEscape length_skipCode hc''
      simp only [List.length_cons] at hlength
      obtain ⟨f'', fuel'', rfl⟩ := List.exists_cons_of_length_pos (show 0 < fuel'.length by omega)
      simp only [List.length_cons] at hfuel
      obtain ⟨cs'', hcs''⟩ := ih _ hcs (show after.length ≤ fuel''.length by omega)
      exact ⟨_, hstep hc' (hstep hc'' hcs'')⟩
  | case5 => cases h
  | case6 f fuel c text hc hq hb ih =>
    obtain ⟨⟨cs', after'⟩, hcs, h⟩ := bind_eq_ok.mp h
    cases h
    obtain ⟨f', fuel', rfl⟩ := List.exists_cons_of_length_pos (Nat.lt_of_lt_of_le (by simp) hfuel)
    obtain ⟨cs'', hcs''⟩ := ih hcs (Nat.le_of_succ_le_succ hfuel)
    rw [readChars.eq_5 _ _ _ _ _ hc hq, if_neg hb]
    exact ⟨_, bind_eq_ok.mpr ⟨_, hcs'', rfl⟩⟩

theorem skipString_of_readString {s : String} (h : readString text = .ok (s, rest)) :
    ∃ s', skipString text = .ok (s', rest) := by
  obtain ⟨⟨cs, after⟩, hcs, h⟩ := bind_eq_ok.mp h
  cases h
  obtain ⟨cs', hcs'⟩ := readChars_skip hcs le_rfl
  exact ⟨_, bind_eq_ok.mpr ⟨_, hcs', rfl⟩⟩

/-- A reader that goes as far as another on each element goes as far on the list. -/
theorem readElements_follow {raw : Nat → Reader α} {β : Type} {element : Nat → Reader β}
    {fuel : List Char} {index : Nat} {xs : List α}
    (h : readElements raw fuel index text = .ok (xs, rest))
    (helement : ∀ x ∈ xs, ∀ {index text rest}, raw index text = .ok (x, rest) →
      ∃ y, element index text = .ok (y, rest)) :
    ∃ ys, readElements element fuel index text = .ok (ys, rest) := by
  induction fuel generalizing index text xs with
  | nil => cases h
  | cons f fuel ih =>
    obtain ⟨_, _, x, after, hfuel, hx, ⟨hend, rfl⟩ | ⟨more, xs', hafter, hopens, hxs, rfl⟩⟩ :=
      readElements_eq_ok h
    · obtain ⟨y, hy⟩ := helement x List.mem_cons_self hx
      exact ⟨_, readElements_last hy hend⟩
    · cases hfuel
      rw [List.forall_mem_cons] at helement
      obtain ⟨y, hy⟩ := helement.1 hx
      obtain ⟨ys, hys⟩ := ih hxs helement.2
      rw [readElements_next hy hafter hopens, hys]
      exact ⟨_, rfl⟩

theorem readList_follow {raw : Nat → Reader α} {β : Type} (element : Nat → Reader β) {xs : List α}
    (h : readList raw text = .ok (xs, rest))
    (helement : ∀ x ∈ xs, ∀ {index text rest}, raw index text = .ok (x, rest) →
      ∃ y, element index text = .ok (y, rest)) :
    ∃ ys, readList element text = .ok (ys, rest) := by
  unfold readList at h ⊢
  split at h
  · cases h
  · cases h
    exact ⟨_, rfl⟩
  · exact readElements_follow h helement

/-- The names may be read differently as well: nothing depends on them. -/
theorem readMembers_follow {name name' : Reader String} {raw : List String → String → Reader α}
    {β : Type} {member : List String → String → Reader β} {fuel : List Char} {seen seen' : List String}
    {ms : List (String × α)} (h : readMembers name raw fuel seen text = .ok (ms, rest))
    (hname : ∀ {text key rest}, name text = .ok (key, rest) → ∃ key', name' text = .ok (key', rest))
    (hmember : ∀ m ∈ ms, ∀ {seen seen' key'} {text rest}, raw seen m.1 text = .ok (m.2, rest) →
      ∃ y, member seen' key' text = .ok (y, rest)) :
    ∃ ns, readMembers name' member fuel seen' text = .ok (ns, rest) := by
  induction fuel generalizing seen seen' text ms with
  | nil => cases h
  | cons f fuel ih =>
    obtain ⟨_, _, key, middle, x, after, hfuel, hkey, hx,
      ⟨hend, rfl⟩ | ⟨more, text', ms', hafter, hmore, hms, rfl⟩⟩ := readMembers_eq_ok h
    · obtain ⟨key', hkey'⟩ := hname hkey
      obtain ⟨y, hy⟩ := hmember (key, x) List.mem_cons_self hx
      exact ⟨_, readMembers_last hkey' hy hend⟩
    · cases hfuel
      rw [List.forall_mem_cons] at hmember
      obtain ⟨key', hkey'⟩ := hname hkey
      obtain ⟨y, hy⟩ := hmember.1 hx
      obtain ⟨ns, hns⟩ := ih hms hmember.2
      rw [readMembers_next hkey' hy hafter hmore, hns]
      exact ⟨_, rfl⟩

theorem readObject_follow {name name' : Reader String} {raw : List String → String → Reader α}
    {β : Type} (member : List String → String → Reader β) {ms : List (String × α)}
    (h : readObject name raw text = .ok (ms, rest))
    (hname : ∀ {text key rest}, name text = .ok (key, rest) → ∃ key', name' text = .ok (key', rest))
    (hmember : ∀ m ∈ ms, ∀ {seen seen' key'} {text rest}, raw seen m.1 text = .ok (m.2, rest) →
      ∃ y, member seen' key' text = .ok (y, rest)) :
    ∃ ns, readObject name' member text = .ok (ns, rest) := by
  unfold readObject at h ⊢
  split at h
  · cases h
  · cases h
    exact ⟨_, rfl⟩
  · exact readMembers_follow h hname hmember
  · cases h

theorem Scan.exists_readWith (scan : Scan α) (n : Nat) :
    ∃ onList onObject, scan.read n = scan.readWith onList onObject := by
  cases n <;> exact ⟨_, _, rfl⟩

/-- The depth that is allowed to the value is what the induction is on; the depth that is allowed to
passing over only has to be enough for the value. -/
theorem skip_of_keep {depth n : Nat} {j : Json} (h : Scan.keep.read depth text = .ok (j, rest))
    (hj : j.depth ≤ n) : Scan.skip.read n text = .ok ((), rest) := by
  induction depth using Nat.strong_induction_on generalizing n text rest j with
  | _ depth ih =>
    obtain ⟨onList, onObject, hread⟩ := Scan.skip.exists_readWith n
    cases begins_of_read h with
    | null htext hword =>
      rw [hread, Scan.readWith, htext]
      exact bind_eq_ok.mpr ⟨_, hword, rfl⟩
    | string htext hs =>
      obtain ⟨s', hs'⟩ := skipString_of_readString hs
      rw [hread, Scan.readWith, htext]
      exact bind_eq_ok.mpr ⟨_, hs', rfl⟩
    | plain htext hc hplain hlength hskip => rw [hread, hskip]
    | list htext hdepth hxs =>
      cases n with
      | zero => simp [Json.depth] at hj
      | succ n =>
        rw [depth_arr_le] at hj
        obtain ⟨ys, hys⟩ := readList_follow (fun _ => Scan.skip.read n) hxs
          fun x hx _ _ _ h => ⟨(), ih _ (by omega) h (hj x hx)⟩
        rw [Scan.read, Scan.readWith, htext]
        exact bind_eq_ok.mpr ⟨_, hys, rfl⟩
    | object htext hdepth hms =>
      cases n with
      | zero => simp [Json.depth] at hj
      | succ n =>
        rw [depth_obj_le] at hj
        obtain ⟨ns, hns⟩ := readObject_follow
          (fun _ _ text => do Scan.skip.read n (← readColon text)) hms
          skipString_of_readString fun m hm _ _ _ _ _ h => by
            obtain ⟨after, hcolon, h⟩ := bind_eq_ok.mp h
            exact ⟨(), bind_eq_ok.mpr ⟨_, hcolon, ih _ (by omega) h (hj m hm)⟩⟩
        rw [Scan.read, Scan.readWith, htext]
        exact bind_eq_ok.mpr ⟨_, hns, rfl⟩

/-- A value that can be kept can be passed over. -/
theorem skipValue_of_read {depth : Nat} {j : Json} (h : Scan.keep.read depth text = .ok (j, rest)) :
    skipValue text = .ok ((), rest) :=
  skip_of_keep h (depth_le_length h).1

end AnnotatedToC.Json
