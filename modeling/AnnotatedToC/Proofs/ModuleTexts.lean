import AnnotatedToC.Proofs.Passing
import AnnotatedToC.Proofs.Presentation
import AnnotatedToC.Source.File

/-!
# Texts of modules

A module file is not read as one value: items are looked at while the text goes on, and unknown members
are passed over. Still, if the text holds a value, then the module that is read from the text is the
module that is read from the value, and there is none if the value is no module. So texts may be
presented differently just as values may.
-/
namespace AnnotatedToC

namespace Json

variable {α : Type} {depth : Nat} {text rest : List Char}

/-! ## Readers that follow a value -/

/-- Where a value of some depth stands, the reader gives what is decoded from the value and goes as far
as the value does. -/
def Follows (depth : Nat) (reader : Reader α) (decode : Json → Option α) : Prop :=
  ∀ {text rest j}, Scan.keep.read depth text = .ok (j, rest) →
    (reader text).toOption = (decode j).map (·, rest)

theorem exists_error_of_toOption {β : Type} {x : Except Fault β} (h : x.toOption = none) :
    ∃ fault, x = .error fault := by
  cases x with
  | error fault => exact ⟨fault, rfl⟩
  | ok y => cases h

theorem eq_ok_of_toOption {β : Type} {x : Except Fault β} {y : β} (h : x.toOption = some y) :
    x = .ok y := by
  cases x with
  | error fault => cases h
  | ok y' =>
    cases h
    rfl

theorem toOption_bind {β γ : Type} (x : Except Fault β) (f : β → Except Fault γ) :
    (x >>= f).toOption = x.toOption.bind fun y => (f y).toOption := by
  cases x <;> rfl

/-- Elements decoded in turn, each with the number of those before it. -/
def decodeElements (decode : Nat → Json → Option α) : Nat → List Json → Option (List α)
  | _, [] => some []
  | index, j :: js => do return (← decode index j) :: (← decodeElements decode (index + 1) js)

theorem readElements_follows {element : Nat → Reader α} {decode : Nat → Json → Option α}
    (helement : ∀ index, Follows depth (element index) (decode index)) {fuel : List Char}
    {index : Nat} {js : List Json}
    (h : readElements (fun _ => Scan.keep.read depth) fuel index text = .ok (js, rest)) :
    (readElements element fuel index text).toOption =
      (decodeElements decode index js).map (·, rest) := by
  induction fuel generalizing index text js with
  | nil => cases h
  | cons f fuel ih =>
    obtain ⟨_, _, j, after, hfuel, hj, hend⟩ := readElements_eq_ok h
    have hx := helement index hj
    cases hdecode : decode index j with
    | none =>
      -- the first fault ends both, however the list goes on
      rw [hdecode] at hx
      obtain ⟨fault, hfault⟩ := exists_error_of_toOption hx
      rw [readElements_error hfault]
      rcases hend with ⟨-, rfl⟩ | ⟨_, _, -, -, -, rfl⟩
      · simp [decodeElements, hdecode, Except.toOption]
      · simp [decodeElements, hdecode, Except.toOption]
    | some x =>
      rw [hdecode] at hx
      have hx := eq_ok_of_toOption hx
      rcases hend with ⟨hend, rfl⟩ | ⟨more, js, hafter, hopens, hjs, rfl⟩
      · rw [readElements_last hx hend]
        simp [decodeElements, hdecode, Except.toOption]
      · cases hfuel
        rw [readElements_next hx hafter hopens]
        have hrest := ih hjs
        cases hdecodes : decodeElements decode (index + 1) js with
        | none =>
          rw [hdecodes] at hrest
          obtain ⟨fault, hfault⟩ := exists_error_of_toOption hrest
          rw [hfault]
          simp [decodeElements, hdecode, hdecodes, Except.toOption, Except.map]
        | some xs =>
          rw [hdecodes] at hrest
          rw [eq_ok_of_toOption hrest]
          simp [decodeElements, hdecode, hdecodes, Except.toOption, Except.map]

theorem readList_follows {element : Nat → Reader α} {decode : Nat → Json → Option α}
    (helement : ∀ index, Follows depth (element index) (decode index)) {js : List Json}
    (h : readList (fun _ => Scan.keep.read depth) text = .ok (js, rest)) :
    (readList element text).toOption = (decodeElements decode 0 js).map (·, rest) := by
  unfold readList at h ⊢
  split at h
  · cases h
  · cases h
    rfl
  · exact readElements_follows helement h

/-- Members decoded in turn, each with the names of those before it. -/
def decodeMembers (decode : List String → String → Json → Option α) :
    List String → Fields Json → Option (Fields α)
  | _, [] => some []
  | seen, (key, j) :: members => do
    return (key, ← decode seen key j) :: (← decodeMembers decode (key :: seen) members)

/-- The same for the reader of a member, which begins at the colon. -/
def FollowsMember (depth : Nat) (member : List String → String → Reader α)
    (decode : List String → String → Json → Option α) : Prop :=
  ∀ seen key {text rest j}, (readColon text >>= fun text => Scan.keep.read depth text) = .ok (j, rest) →
    (member seen key text).toOption = (decode seen key j).map (·, rest)

theorem readMembers_follows {member : List String → String → Reader α}
    {decode : List String → String → Json → Option α}
    (hmember : FollowsMember depth member decode)
    {fuel : List Char} {seen : List String} {members : Fields Json}
    (h : readMembers readString (fun _ _ text => do Scan.keep.read depth (← readColon text)) fuel seen
      text = .ok (members, rest)) :
    (readMembers readString member fuel seen text).toOption =
      (decodeMembers decode seen members).map (·, rest) := by
  induction fuel generalizing seen text members with
  | nil => cases h
  | cons f fuel ih =>
    obtain ⟨_, _, key, middle, j, after, hfuel, hkey, hj, hend⟩ := readMembers_eq_ok h
    have hx := hmember seen key hj
    cases hdecode : decode seen key j with
    | none =>
      rw [hdecode] at hx
      obtain ⟨fault, hfault⟩ := exists_error_of_toOption hx
      rw [readMembers_error hkey hfault]
      rcases hend with ⟨-, rfl⟩ | ⟨_, _, _, -, -, -, rfl⟩
      · simp [decodeMembers, hdecode, Except.toOption]
      · simp [decodeMembers, hdecode, Except.toOption]
    | some x =>
      rw [hdecode] at hx
      have hx := eq_ok_of_toOption hx
      rcases hend with ⟨hend, rfl⟩ | ⟨more, text', members, hafter, hmore, hmembers, rfl⟩
      · rw [readMembers_last hkey hx hend]
        simp [decodeMembers, hdecode, Except.toOption]
      · cases hfuel
        rw [readMembers_next hkey hx hafter hmore]
        have hrest := ih hmembers
        cases hdecodes : decodeMembers decode (key :: seen) members with
        | none =>
          rw [hdecodes] at hrest
          obtain ⟨fault, hfault⟩ := exists_error_of_toOption hrest
          rw [hfault]
          simp [decodeMembers, hdecode, hdecodes, Except.toOption, Except.map]
        | some xs =>
          rw [hdecodes] at hrest
          rw [eq_ok_of_toOption hrest]
          simp [decodeMembers, hdecode, hdecodes, Except.toOption, Except.map]

theorem readObject_follows {member : List String → String → Reader α}
    {decode : List String → String → Json → Option α}
    (hmember : FollowsMember depth member decode)
    {members : Fields Json}
    (h : readObject readString (fun _ _ text => do Scan.keep.read depth (← readColon text)) text =
      .ok (members, rest)) :
    (readObject readString member text).toOption = (decodeMembers decode [] members).map (·, rest) := by
  unfold readObject at h ⊢
  split at h
  · cases h
  · cases h
    rfl
  · exact readMembers_follows hmember h
  · cases h

/-- A value is parsed from its own text, unless it nests too deep. -/
theorem parse_compact {j : Json} (hj : j.Writable) (hdepth : j.depth ≤ depthLimit) :
    Json.parse j.compact = .ok j := by
  have hstops : Stops inNumeral [] := by simp [Stops]
  have hread := read_write Blanks.blank_empty j hj depthLimit 0 hstops
  rw [List.append_nil, if_pos hdepth] at hread
  rw [Json.parse, compact, String.toList_ofList, hread]
  rfl

/-! ## Fields among members -/

section Lookup

variable {decode : List String → String → Json → Option α} {seen : List String} {name : String}
  {ms : Fields Json}

/-- A field that is left out, or is given once and holds what it should. -/
def Readable (seen : List String) (ms : Fields Json) (name : String) (p : Json → Prop) : Prop :=
  Fields.find? ms name = some none ∨
    name ∉ seen ∧ ∃ j, Fields.find? ms name = some (some j) ∧ p j

theorem find?_eq_some_none_iff : Fields.find? ms name = some none ↔ name ∉ ms.map Prod.fst := by
  refine ⟨fun h hmem => ?_, Fields.find?_eq_none⟩
  obtain ⟨m, hm, rfl⟩ := List.mem_map.mp hmem
  obtain ⟨before, after, rfl⟩ := List.append_of_mem hm
  rw [Fields.find?_perm List.perm_middle] at h
  by_cases hrest : m.1 ∈ (before ++ after).map Prod.fst
  · rw [Fields.find?_cons_eq_none hrest] at h
    cases h
  · rw [Fields.find?_cons_self (Fields.find?_eq_none hrest)] at h
    cases h

theorem readable_cons {key : String} {j : Json} {p : Json → Prop} :
    Readable seen ((key, j) :: ms) name p ↔
      (key = name → name ∉ seen ∧ p j) ∧ Readable (key :: seen) ms name p := by
  rw [Readable, Readable]
  by_cases hkey : key = name
  · subst hkey
    by_cases hmem : key ∈ ms.map Prod.fst
    · rw [Fields.find?_cons_eq_none hmem, find?_eq_some_none_iff]
      simp [hmem]
    · rw [Fields.find?_cons_self (Fields.find?_eq_none hmem), find?_eq_some_none_iff]
      simp [hmem]
  · rw [Fields.find?_cons_of_ne hkey]
    simp [hkey, Ne.symm hkey]

/-- Members are decoded if each of some fields can be read. -/
theorem exists_decodeMembers {names : List String} {p : String → Json → Prop}
    (hdecode : ∀ seen key j, (∃ x, decode seen key j = some x) ↔
      (key ∈ names → key ∉ seen ∧ p key j)) :
    (∃ xs, decodeMembers decode seen ms = some xs) ↔
      ∀ name ∈ names, Readable seen ms name (p name) := by
  induction ms generalizing seen with
  | nil => exact iff_of_true ⟨[], rfl⟩ fun name _ => .inl Fields.find?_nil
  | cons m ms ih =>
    obtain ⟨key, j⟩ := m
    have hcons : (∃ xs, decodeMembers decode seen ((key, j) :: ms) = some xs) ↔
        (∃ x, decode seen key j = some x) ∧ ∃ xs, decodeMembers decode (key :: seen) ms = some xs := by
      simp only [decodeMembers, bind, Option.bind_eq_some_iff, pure, Option.some.injEq]
      constructor
      · rintro ⟨_, x, hx, xs, hxs, -⟩
        exact ⟨⟨x, hx⟩, xs, hxs⟩
      · rintro ⟨⟨x, hx⟩, xs, hxs⟩
        exact ⟨_, x, hx, xs, hxs, rfl⟩
    rw [hcons, hdecode, ih]
    simp only [readable_cons]
    constructor
    · rintro ⟨hkey, hrest⟩ name hname
      refine ⟨?_, hrest name hname⟩
      rintro rfl
      exact hkey hname
    · intro h
      exact ⟨fun hkey => (h key hkey).1 rfl, fun name hname => (h name hname).2⟩

/-- What is found among decoded members under a name is what was decoded there. -/
theorem findSome?_decodeMembers {β : Type} {project : α → Option β}
    (hother : ∀ {seen key j x}, key ≠ name → decode seen key j = some x → project x = none)
    {xs : Fields α} (h : decodeMembers decode seen ms = some xs) :
    (Fields.find? ms name = some none → xs.findSome? (project ·.2) = none) ∧
      ∀ j, Fields.find? ms name = some (some j) →
        ∃ seen x, decode seen name j = some x ∧ xs.findSome? (project ·.2) = project x := by
  induction ms generalizing seen xs with
  | nil =>
    cases h
    exact ⟨fun _ => rfl, fun j hj => by simp at hj⟩
  | cons m ms ih =>
    obtain ⟨key, j⟩ := m
    obtain ⟨x, hx, h⟩ := Option.bind_eq_some_iff.mp h
    obtain ⟨xs', hxs, h⟩ := Option.bind_eq_some_iff.mp h
    cases h
    obtain ⟨hnone, hsome⟩ := ih hxs
    rw [List.findSome?_cons]
    by_cases hkey : key = name
    · subst hkey
      by_cases hmem : key ∈ ms.map Prod.fst
      · rw [Fields.find?_cons_eq_none hmem]
        exact ⟨fun h => (by cases h), fun _ h => (by cases h)⟩
      · have hms := Fields.find?_eq_none hmem
        rw [Fields.find?_cons_self hms, hnone hms]
        refine ⟨fun h => (by cases h), fun _ h => ?_⟩
        cases h
        refine ⟨seen, x, hx, ?_⟩
        cases project x <;> rfl
    · rw [Fields.find?_cons_of_ne hkey, hother hkey hx]
      exact ⟨hnone, hsome⟩

end Lookup

end Json

namespace Source

open Json

variable {depth : Nat} {text rest : List Char}

/-! ## Items -/

/-- The name of a case of items. -/
def keepTag? : Json → Option Json
  | .str tag => if tag = "FunctionDef" ∨ tag = "Other" then some (.str tag) else none
  | _ => none

theorem readTag_follows : Follows depth readTag keepTag? := by
  intro text rest j h
  cases begins_of_read h with
  | @string t _ tag htext hs =>
    rw [readTag, htext, keepTag?]
    change (readString t >>= _).toOption = _
    rw [hs]
    by_cases htag : tag = "FunctionDef" ∨ tag = "Other"
    · simp [bind, Except.bind, htag, Except.toOption, pure, Except.pure]
    · simp [bind, Except.bind, htag, Except.toOption, throw, throwThe, MonadExceptOf.throw]
  | plain htext hc hplain =>
    unfold readTag
    rw [htext]
    split
    · simp_all
    · cases j with
      | str s => cases hplain
      | _ => rfl
  | null htext =>
    rw [readTag, htext]
    rfl
  | list htext =>
    rw [readTag, htext]
    rfl
  | object htext =>
    rw [readTag, htext]
    rfl

/-- A member of an item: the case of the item comes only once. -/
def keepMember? (seen : List String) (name : String) (j : Json) : Option Json :=
  if name = "type" then if name ∈ seen then none else keepTag? j else some j

theorem readItemMember_follows : FollowsMember (depthLimit - 3) readItemMember keepMember? := by
  intro seen name text rest j h
  obtain ⟨after, hcolon, h⟩ := bind_eq_ok.mp h
  rw [readItemMember, keepMember?]
  split_ifs with htype hseen
  · rfl
  · rw [hcolon]
    exact readTag_follows h
  · rw [hcolon]
    change (readInner after).toOption = _
    rw [readInner, h]
    rfl

theorem eq_of_keepMember? {seen : List String} {ms ns : Fields Json}
    (h : decodeMembers keepMember? seen ms = some ns) : ns = ms := by
  have hkeep {seen : List String} {key : String} {j k : Json} (h : keepMember? seen key j = some k) :
      k = j := by
    unfold keepMember? at h
    split_ifs at h
    · unfold keepTag? at h
      split at h
      · split_ifs at h
        cases h
        rfl
      · cases h
    · cases h
      rfl
  induction ms generalizing seen ns with
  | nil =>
    cases h
    rfl
  | cons m ms ih =>
    obtain ⟨k, hk, h⟩ := Option.bind_eq_some_iff.mp h
    obtain ⟨ns', hns, h⟩ := Option.bind_eq_some_iff.mp h
    cases h
    rw [hkeep hk, ih hns]

theorem keepMember?_isSome (seen : List String) (key : String) (j : Json) :
    (∃ k, keepMember? seen key j = some k) ↔
      (key ∈ ["type"] → key ∉ seen ∧ ∃ k, keepTag? j = some k) := by
  unfold keepMember?
  split_ifs with htype hseen
  · exact iff_of_false (by simp) fun h => (h (by simp [htype])).1 hseen
  · simp [htype, htype ▸ hseen]
  · simp [htype]

/-- Checking the case of an item early refuses no item. -/
theorem decodeMembers_keepMember? (members : Fields Json) :
    (decodeMembers keepMember? [] members).bind (fun members => Item.ofJson? (.obj members)) =
      Item.ofJson? (.obj members) := by
  cases h : decodeMembers keepMember? [] members with
  | some ns => rw [eq_of_keepMember? h, Option.bind_some]
  | none =>
    refine (Option.eq_none_iff_forall_ne_some.mpr fun i hi => ?_).symm
    obtain ⟨htype, -⟩ := Item.ofJson?_obj_eq_some.mp hi
    obtain ⟨j, hj, htag⟩ := Fields.required_eq_some.mp htype
    have hkeep : ∃ k, keepTag? j = some k := by
      rw [eq_str_of_str? htag]
      cases i <;> exact ⟨_, rfl⟩
    have hexists : ∃ ns, decodeMembers keepMember? [] members = some ns := by
      refine (exists_decodeMembers keepMember?_isSome).mpr fun name hname => ?_
      obtain rfl := List.mem_singleton.mp hname
      exact .inr ⟨List.not_mem_nil, j, hj, hkeep⟩
    obtain ⟨ns, hns⟩ := hexists
    cases h.symm.trans hns

/-- An element of an item that is a list. -/
def keepElement? (index : Nat) (j : Json) : Option Json := if index = 0 then keepTag? j else some j

theorem readItemElement_follows (index : Nat) :
    Follows (depthLimit - 3) (if index = 0 then readTag else readInner) (keepElement? index) := by
  intro text rest j h
  unfold keepElement?
  split_ifs
  · exact readTag_follows h
  · rw [readInner, h]
    rfl

theorem decodeElements_keepElement? (elements : List Json) :
    (decodeElements keepElement? 0 elements).bind (fun elements => Item.ofJson? (.arr elements)) =
      Item.ofJson? (.arr elements) := by
  have hrest (index : Nat) (js : List Json) :
      decodeElements keepElement? (index + 1) js = some js := by
    induction js generalizing index with
    | nil => rfl
    | cons j js ih => rw [decodeElements, ih]; rfl
  cases elements with
  | nil => rfl
  | cons tag elements =>
    cases tag with
    | str tag =>
      by_cases htag : tag = "FunctionDef" ∨ tag = "Other"
      · simp [decodeElements, hrest, keepElement?, keepTag?, htag]
      · have hnone : Item.ofJson? (.arr (.str tag :: elements)) = none := by
          refine Option.eq_none_iff_forall_ne_some.mpr fun i hi => htag ?_
          change Item.ofFields? tag (fun names => (Json.arr elements).fields? names) = some i at hi
          obtain ⟨rfl, -⟩ := Item.ofFields?_eq_some.mp hi
          cases i <;> simp [Item.tag]
        simp [decodeElements, keepElement?, keepTag?, htag, hnone]
    | _ => rfl

theorem toOption_checked_bind {α : Type} (x? : Option α) (rest : List Char) :
    (do return (← checked x?, rest) : Except Fault (α × List Char)).toOption = x?.map (·, rest) := by
  cases x? <;> rfl

theorem readItem_follows : Follows (depthLimit - 2) readItem Item.ofJson? := by
  intro text rest j h
  cases begins_of_read h with
  | object htext hdepth hms =>
    obtain rfl := Nat.succ.inj hdepth
    have hread := readObject_follows readItemMember_follows hms
    rw [readItem, htext, ← decodeMembers_keepMember?]
    change (readObject readString readItemMember _ >>= _).toOption = _
    rw [toOption_bind, hread]
    cases decodeMembers keepMember? [] _ with
    | none => rfl
    | some ms => exact toOption_checked_bind _ _
  | list htext hdepth hxs =>
    obtain rfl := Nat.succ.inj hdepth
    have hread := readList_follows readItemElement_follows hxs
    rw [readItem, htext, ← decodeElements_keepElement?]
    change (readList _ _ >>= _).toOption = _
    rw [toOption_bind, hread]
    cases decodeElements keepElement? 0 _ with
    | none => rfl
    | some xs => exact toOption_checked_bind _ _
  | null htext =>
    rw [readItem, htext]
    rfl
  | string htext =>
    rw [readItem, htext]
    rfl
  | plain htext hc hplain =>
    unfold readItem
    rw [htext]
    split
    · simp_all
    · simp_all
    · cases j with
      | arr => cases hplain
      | obj => cases hplain
      | _ => rfl

theorem decodeElements_const {α : Type} (decode : Json → Option α) (index : Nat) (js : List Json) :
    decodeElements (fun _ => decode) index js = js.mapM decode := by
  induction js generalizing index with
  | nil => rfl
  | cons j js ih => rw [decodeElements, ih, List.mapM_cons]

theorem readItems_follows : Follows (depthLimit - 1) readItems (list? Item.ofJson?) := by
  intro text rest j h
  cases begins_of_read h with
  | list htext hdepth hxs =>
    obtain rfl := Nat.succ.inj hdepth
    have hread := readList_follows (fun _ => readItem_follows) hxs
    rw [decodeElements_const] at hread
    rw [readItems, htext]
    exact hread
  | null htext =>
    rw [readItems, htext]
    rfl
  | string htext =>
    rw [readItems, htext]
    rfl
  | object htext =>
    rw [readItems, htext]
    rfl
  | plain htext hc hplain =>
    unfold readItems
    rw [htext]
    split
    · simp_all
    · cases j with
      | arr => cases hplain
      | _ => rfl

/-! ## Modules -/

theorem readFilename_follows : Follows depth readFilename (nullable? str?) := by
  intro text rest j h
  cases begins_of_read h with
  | null htext hword =>
    rw [readFilename, htext]
    change (readWord ['u', 'l', 'l'] _ >>= _).toOption = _
    rw [hword]
    rfl
  | string htext hs =>
    rw [readFilename, htext]
    change (readString _ >>= _).toOption = _
    rw [hs]
    rfl
  | list htext =>
    rw [readFilename, htext]
    rfl
  | object htext =>
    rw [readFilename, htext]
    rfl
  | plain htext hc hplain =>
    unfold readFilename
    rw [htext]
    split
    · simp_all
    · simp_all
    · cases j with
      | null => cases hplain
      | str => cases hplain
      | _ => rfl

/-- A member of a module from its value. -/
def Part.ofJson? (seen : List String) (name : String) (j : Json) : Option Part :=
  if name = "filename" then
    if name ∈ seen then none else (nullable? str? j).map .filename
  else if name = "body" then
    if name ∈ seen then none else (list? Item.ofJson? j).map .body
  else some .unknown

theorem readPart_follows : FollowsMember (depthLimit - 1) readPart Part.ofJson? := by
  intro seen name text rest j h
  obtain ⟨after, hcolon, h⟩ := bind_eq_ok.mp h
  rw [readPart, Part.ofJson?]
  split_ifs with hfilename hseen hbody hseen
  · rfl
  · have hread := readFilename_follows h
    rw [hcolon]
    change (readFilename after >>= _).toOption = _
    rw [toOption_bind, hread]
    cases nullable? str? j <;> rfl
  · rfl
  · have hread := readItems_follows h
    rw [hcolon]
    change (readItems after >>= _).toOption = _
    rw [toOption_bind, hread]
    cases list? Item.ofJson? j <;> rfl
  · rw [hcolon]
    change (skipValue after >>= _).toOption = _
    rw [skipValue_of_read h]
    rfl

/-- What the fields of a module hold. -/
def Part.Holds (name : String) (j : Json) : Prop :=
  if name = "filename" then ∃ filename, nullable? str? j = some filename
  else ∃ items, list? Item.ofJson? j = some items

theorem Part.ofJson?_isSome (seen : List String) (key : String) (j : Json) :
    (∃ part, Part.ofJson? seen key j = some part) ↔
      (key ∈ ["filename", "body"] → key ∉ seen ∧ Part.Holds key j) := by
  unfold Part.ofJson? Part.Holds
  split_ifs with hfilename hseen hbody hseen
  · exact iff_of_false (by simp) fun h => (h (by simp [hfilename])).1 hseen
  · simp [hfilename, hfilename ▸ hseen]
  · exact iff_of_false (by simp) fun h => (h (by simp [hbody])).1 hseen
  · simp [hbody, hbody ▸ hseen]
  · simp [hfilename, hbody]

theorem Part.ofJson?_eq_some {seen : List String} {key : String} {j : Json} {part : Part}
    (h : Part.ofJson? seen key j = some part) :
    (key = "filename" ∧ ∃ filename, nullable? str? j = some filename ∧ part = .filename filename) ∨
      (key = "body" ∧ ∃ items, list? Item.ofJson? j = some items ∧ part = .body items) ∨
      (key ≠ "filename" ∧ key ≠ "body" ∧ part = .unknown) := by
  unfold Part.ofJson? at h
  split_ifs at h with hfilename hseen hbody hseen
  · obtain ⟨filename, hread, rfl⟩ := Option.map_eq_some_iff.mp h
    exact .inl ⟨hfilename, filename, hread, rfl⟩
  · obtain ⟨items, hread, rfl⟩ := Option.map_eq_some_iff.mp h
    exact .inr (.inl ⟨hbody, items, hread, rfl⟩)
  · cases h
    exact .inr (.inr ⟨hfilename, hbody, rfl⟩)

section Parts

variable {α : Type} {name : String} {f : Json → Option α} {project : Part → Option α}
  {members : Fields Json} {parts : Fields Part}

/-- A field of a module that was put together from its members. -/
theorem optional_of_parts (hname : name ∈ ["filename", "body"])
    (hown : ∀ {seen j part}, Part.ofJson? seen name j = some part →
      ∃ x, f j = some x ∧ project part = some x)
    (hother : ∀ {seen key j part}, key ≠ name → Part.ofJson? seen key j = some part →
      project part = none)
    (h : decodeMembers Part.ofJson? [] members = some parts) (z : α) :
    members.optional name f z = some ((parts.findSome? (project ·.2)).getD z) := by
  obtain ⟨hnone, hsome⟩ := findSome?_decodeMembers hother h
  have hreadable := (exists_decodeMembers Part.ofJson?_isSome).mp ⟨parts, h⟩ name hname
  rw [Fields.optional_eq_some]
  rcases hreadable with hfind | ⟨-, j, hfind, -⟩
  · rw [hnone hfind]
    exact .inl ⟨hfind, rfl⟩
  · obtain ⟨seen, part, hpart, hfound⟩ := hsome j hfind
    obtain ⟨x, hx, hproject⟩ := hown hpart
    rw [hfound, hproject]
    exact .inr ⟨j, hfind, hx⟩

end Parts

theorem readable_of_optional {α : Type} {members : Fields Json} {name : String}
    {f : Json → Option α} {x z : α} (h : members.optional name f z = some x) :
    Readable [] members name fun j => ∃ y, f j = some y := by
  rcases Fields.optional_eq_some.mp h with ⟨hfind, -⟩ | ⟨j, hfind, hj⟩
  · exact .inl hfind
  · exact .inr ⟨List.not_mem_nil, j, hfind, x, hj⟩

theorem Module.ofJson?_obj_eq_some {members : Fields Json} {m : Module} :
    Module.ofJson? (.obj members) = some m ↔
      members.optional "filename" (nullable? str?) none = some m.filename ∧
        members.optional "body" (list? Item.ofJson?) [] = some m.body := by
  change (members.optional "filename" (nullable? str?) none).bind _ = some m ↔ _
  simp only [Option.bind_eq_some_iff, bind, pure, Option.some.injEq]
  constructor
  · rintro ⟨filename, hfilename, body, hbody, rfl⟩
    exact ⟨hfilename, hbody⟩
  · rintro ⟨hfilename, hbody⟩
    exact ⟨_, hfilename, _, hbody, rfl⟩

/-- A module is made up of its members. -/
theorem Module.ofParts_decodeMembers (members : Fields Json) :
    (decodeMembers Part.ofJson? [] members).map Module.ofParts = Module.ofJson? (.obj members) := by
  cases h : decodeMembers Part.ofJson? [] members with
  | some parts =>
    refine (Module.ofJson?_obj_eq_some.mpr ⟨?_, ?_⟩).symm
    · have hjoin (x : Option (Option String)) : x.join = x.getD none := by
        cases x <;> rfl
      rw [Module.ofParts, hjoin]
      refine optional_of_parts (by simp) ?_ ?_ h none
      · intro seen j part hpart
        obtain ⟨-, x, hx, rfl⟩ | ⟨hkey, -⟩ | ⟨hkey, -⟩ := Part.ofJson?_eq_some hpart
        · exact ⟨x, hx, rfl⟩
        · simp at hkey
        · exact absurd rfl hkey
      · intro seen key j part hkey hpart
        obtain ⟨hkey', -⟩ | ⟨-, _, -, rfl⟩ | ⟨-, -, rfl⟩ := Part.ofJson?_eq_some hpart
        · exact absurd hkey' hkey
        · rfl
        · rfl
    · refine optional_of_parts (by simp) ?_ ?_ h []
      · intro seen j part hpart
        obtain ⟨hkey, -⟩ | ⟨-, xs, hxs, rfl⟩ | ⟨-, hkey, -⟩ := Part.ofJson?_eq_some hpart
        · simp at hkey
        · exact ⟨xs, hxs, rfl⟩
        · exact absurd rfl hkey
      · intro seen key j part hkey hpart
        obtain ⟨-, _, -, rfl⟩ | ⟨hkey', -⟩ | ⟨-, -, rfl⟩ := Part.ofJson?_eq_some hpart
        · rfl
        · exact absurd hkey' hkey
        · rfl
  | none =>
    refine (Option.eq_none_iff_forall_ne_some.mpr fun m hm => ?_).symm
    obtain ⟨hfilename, hbody⟩ := Module.ofJson?_obj_eq_some.mp hm
    have hexists : ∃ parts, decodeMembers Part.ofJson? [] members = some parts := by
      refine (exists_decodeMembers Part.ofJson?_isSome).mpr ?_
      simp only [List.forall_mem_cons]
      exact ⟨readable_of_optional hfilename, readable_of_optional hbody, List.forall_mem_nil _⟩
    obtain ⟨parts, hparts⟩ := hexists
    cases h.symm.trans hparts

/-! ### Modules that are lists -/

section Lists

variable {filename : Option String} {after more : List Char}

theorem readListBody_close (h : skipBlanks after = ']' :: rest) :
    readListBody filename after = .ok (⟨filename, []⟩, rest) := by
  rw [readListBody, h]
  rfl

/-- The items come after the comma. -/
theorem readListBody_next (hafter : skipBlanks after = ',' :: more) (hmore : Opens (skipBlanks more)) :
    readListBody filename after =
      readItems (skipBlanks more) >>= fun r => readListEnd ⟨filename, r.1⟩ r.2 := by
  obtain ⟨c, cs, hcs, -, hclose⟩ := hmore
  simp only [readListBody, hafter, hcs]
  split
  · rename_i hnil
    cases hnil
  · rename_i hcons
    cases hcons
    exact absurd rfl hclose
  · rfl

theorem readModule_list (htext : skipBlanks text = '[' :: more) (hmore : Opens (skipBlanks more)) :
    readModule text = readFilename (skipBlanks more) >>= fun r => readListBody r.1 r.2 := by
  obtain ⟨c, cs, hcs, -, hclose⟩ := hmore
  simp only [readModule, htext, hcs]
  split
  · rename_i hnil
    cases hnil
  · rename_i hcons
    cases hcons
    exact absurd rfl hclose
  · rfl

/-- The module whose fields after the file name are given. -/
def Module.ofBody? (filename : Option String) : List Json → Option Module
  | [] => some ⟨filename, []⟩
  | [j] => (list? Item.ofJson? j).map (Module.mk filename)
  | _ :: _ :: _ => none

theorem Module.ofJson?_arr_cons (j : Json) (js : List Json) :
    Module.ofJson? (.arr (j :: js)) =
      (nullable? str? j).bind fun filename => Module.ofBody? filename js := by
  rcases js with _ | ⟨k, _ | ⟨l, js⟩⟩
  · simp [Module.ofJson?, Json.fields?, Module.ofBody?]
  · have hmap (filename : Option String) : (list? Item.ofJson? k).map (Module.mk filename) =
        (list? Item.ofJson? k).bind fun items => some ⟨filename, items⟩ := by
      cases list? Item.ofJson? k <;> rfl
    simp [Module.ofJson?, Json.fields?, Module.ofBody?, hmap]
  · simp [Module.ofJson?, Json.fields?, Module.ofBody?]

/-- After the file name comes the end, or the list of items and the end. -/
theorem readListBody_follows {js : List Json}
    (h : skipBlanks after = ']' :: rest ∧ js = [] ∨
      ∃ more fuel index, skipBlanks after = ',' :: more ∧ Opens (skipBlanks more) ∧
        readElements (fun _ => Scan.keep.read (depthLimit - 1)) fuel index (skipBlanks more) =
          .ok (js, rest)) :
    (readListBody filename after).toOption = (Module.ofBody? filename js).map (·, rest) := by
  obtain ⟨hclose, rfl⟩ | ⟨more, fuel, index, hafter, hmore, hjs⟩ := h
  · rw [readListBody_close hclose]
    rfl
  · obtain ⟨_, _, j, after', -, hj, hend⟩ := readElements_eq_ok hjs
    have hitems := readItems_follows hj
    rw [readListBody_next hafter hmore, toOption_bind, hitems]
    obtain ⟨hclose, rfl⟩ | ⟨more', js, hafter', -, hjs', rfl⟩ := hend
    · rw [Module.ofBody?]
      cases list? Item.ofJson? j with
      | none => rfl
      | some items =>
        change (readListEnd ⟨filename, items⟩ after').toOption = _
        rw [readListEnd, hclose]
        rfl
    · -- a third field is refused
      obtain ⟨_, _, k, _, -, -, ⟨-, rfl⟩ | ⟨_, ks, -, -, -, rfl⟩⟩ := readElements_eq_ok hjs'
      all_goals
        rw [Module.ofBody?]
        cases list? Item.ofJson? j with
        | none => rfl
        | some items =>
          change (readListEnd ⟨filename, items⟩ after').toOption = _
          rw [readListEnd, hafter']
          rfl

end Lists

theorem readModule_follows : Follows depthLimit readModule Module.ofJson? := by
  intro text rest j h
  cases begins_of_read h with
  | object htext hdepth hms =>
    obtain rfl := Nat.succ.inj hdepth
    have hread := readObject_follows readPart_follows hms
    rw [readModule, htext, ← Module.ofParts_decodeMembers]
    change (readObject readString readPart _ >>= _).toOption = _
    rw [toOption_bind, hread]
    cases decodeMembers Part.ofJson? [] _ <;> rfl
  | list htext hdepth hxs =>
    obtain rfl := Nat.succ.inj hdepth
    unfold readList at hxs
    split at hxs
    · cases hxs
    · rename_i hclose
      cases hxs
      simp only [readModule, htext, hclose]
      rfl
    · rename_i hnil hclose
      obtain ⟨c, cs, hcs⟩ := List.exists_cons_of_ne_nil hnil
      have hopens := opens_skipBlanks hcs fun hc => hclose cs (hc ▸ hcs)
      obtain ⟨_, fuel, j, after, -, hj, hend⟩ := readElements_eq_ok hxs
      have hfilename := readFilename_follows hj
      rw [readModule_list htext hopens, toOption_bind, hfilename]
      obtain ⟨hclose, rfl⟩ | ⟨more, js, hafter, hmore, hjs, rfl⟩ := hend
      · rw [Module.ofJson?_arr_cons]
        cases nullable? str? j with
        | none => rfl
        | some filename => exact readListBody_follows (.inl ⟨hclose, rfl⟩)
      · rw [Module.ofJson?_arr_cons]
        cases nullable? str? j with
        | none => rfl
        | some filename => exact readListBody_follows (.inr ⟨more, fuel, 1, hafter, hmore, hjs⟩)
  | null htext =>
    rw [readModule, htext]
    rfl
  | string htext =>
    rw [readModule, htext]
    rfl
  | plain htext hc hplain =>
    unfold readModule
    rw [htext]
    split
    · simp_all
    · simp_all
    · cases j with
      | arr => cases hplain
      | obj => cases hplain
      | _ => rfl

/-- A text that holds a value holds the module that the value is. -/
theorem Module.parse_eq_ok_iff {text : String} {j : Json} (h : Json.parse text = .ok j) {m : Module} :
    Module.parse text = .ok m ↔ Module.ofJson? j = some m := by
  obtain ⟨⟨j', rest⟩, hread, h⟩ := bind_eq_ok.mp h
  have hmodule := readModule_follows hread
  dsimp only at h
  split at h
  · rename_i hrest
    cases h
    cases hj : Module.ofJson? j with
    | none =>
      rw [hj] at hmodule
      obtain ⟨fault, hfault⟩ := exists_error_of_toOption hmodule
      rw [Module.parse, hfault]
      exact iff_of_false (fun h => by cases h) (fun h => by cases h)
    | some m' =>
      rw [hj] at hmodule
      rw [Module.parse, eq_ok_of_toOption hmodule]
      simp [bind, Except.bind, hrest, pure, Except.pure]
  · cases h

/-! ## Modules presented differently -/

theorem ofJson?_eq_of_eqvGen {j k : Json} (h : Relation.EqvGen (Edit .file) j k) :
    Module.ofJson? j = Module.ofJson? k := by
  induction h with
  | rel j k h => exact h.read?_eq
  | refl j => rfl
  | symm j k _ ih => exact ih.symm
  | trans j k l _ _ ih ih' => exact ih.trans ih'

/-- Values that differ in their presentation only stand for the same module, and so do their texts. -/
theorem Module.read_of_eqvGen_edit {j k : Json} (h : Relation.EqvGen (Edit .file) j k) :
    Module.ofJson? k = Module.ofJson? j ∧
      ∀ s t : String, Json.parse s = .ok j → Json.parse t = .ok k →
        ∀ m, Module.parse t = .ok m ↔ Module.parse s = .ok m := by
  have hread := ofJson?_eq_of_eqvGen h
  refine ⟨hread.symm, fun s t hs ht m => ?_⟩
  rw [Module.parse_eq_ok_iff hs, Module.parse_eq_ok_iff ht, hread]

/-- A name with no more than it needs. -/
def terseName : Json := .obj [("type", .str "Name"), ("id", .str "x")]

/-- The same name with its line, a note and another order of members. -/
def wordyName : Json :=
  .obj [("id", .str "x"), ("note", .arr [.null]), ("line", .int 0), ("type", .str "Name")]

/-- A module with a function that returns a value. -/
def returning (value : Json) : Json :=
  .obj [("body", .arr [.obj [("body", .arr [.obj [("value", value), ("type", .str "Return")]]),
    ("type", .str "FunctionDef"), ("name", .str "f")]])]

theorem edit_returning {x y : List (String × Json)} (h : Edit .expr (.obj x) (.obj y)) :
    Edit .file (returning (.obj x)) (returning (.obj y)) := by
  have hstmt := @Edit.member _ .stmt [("type", .str "Return")] _
    ⟨"value", .nullable .expr, some .null⟩ _ _ rfl (by simp [Stmt.fields]) (.nullable h)
  have hitem := @Edit.member _ .item [("type", .str "FunctionDef"), ("name", .str "f")] _
    ⟨"body", .list .stmt, some (.arr [])⟩ _ _ rfl (by simp [Item.fields])
    (@Edit.element _ .stmt [] [] _ _ hstmt)
  exact @Edit.member _ .file [] _ ⟨"body", .list .item, some (.arr [])⟩ _ _ rfl
    (by simp [Module.fields]) (@Edit.element _ .item [] [] _ _ hitem)

theorem eqvGen_returning :
    Relation.EqvGen (Edit .file) (returning terseName) (returning wordyName) := by
  have hline := edit_returning (@Edit.default _ .expr [("type", .str "Name"), ("id", .str "x")] _ .line
    _ rfl (by simp) rfl (by decide))
  have hnote := edit_returning (@Edit.unknown _ .expr
    [("line", .int 0), ("type", .str "Name"), ("id", .str "x")] _ "note" (.arr [.null]) rfl
    (by simp [Expr.fields]))
  have hsame : Same (.obj [("note", .arr [.null]), ("line", .int 0), ("type", .str "Name"),
      ("id", .str "x")]) wordyName :=
    .obj rfl (List.forall₂_same.mpr fun j _ => .refl j) (List.perm_append_singleton _ [_, _, _])
  exact .trans _ _ _ (.rel _ _ hline)
    (.trans _ _ _ (.rel _ _ hnote) (.rel _ _ (edit_returning (.reorder hsame))))

def returnedName : Module where
  filename := none
  body := [.function ⟨"f", [], none, [.ret 0 (some (.name 0 "x"))], 0⟩]

theorem writable_returning {value : Json} (h : value.Writable) : (returning value).Writable := by
  simp [returning, writable_obj, writable_arr, writable_str, h]

theorem Module.read_of_eqvGen_edit_wordyName :
    Relation.EqvGen (Edit .file) (returning terseName) (returning wordyName) ∧
      Module.ofJson? (returning wordyName) = some returnedName ∧
      Module.parse (returning wordyName).compact = .ok returnedName := by
  have hterse : Module.ofJson? (returning terseName) = some returnedName := rfl
  have hterse' : Json.parse (returning terseName).compact = .ok (returning terseName) :=
    parse_compact (writable_returning (by simp [terseName, writable_obj, writable_str])) (by decide)
  have hwordy : Json.parse (returning wordyName).compact = .ok (returning wordyName) :=
    parse_compact (writable_returning (by
      simp [wordyName, writable_obj, writable_arr, writable_str, writable_null, writable_int]))
      (by decide)
  obtain ⟨hread, hparse⟩ := Module.read_of_eqvGen_edit eqvGen_returning
  refine ⟨eqvGen_returning, hread.trans hterse, ?_⟩
  exact (hparse _ _ hterse' hwordy returnedName).mpr ((Module.parse_eq_ok_iff hterse').mpr hterse)

end Source

end AnnotatedToC
