import AnnotatedToC.Proofs.JsonText
import AnnotatedToC.Proofs.SourceCodec
import AnnotatedToC.Source.File

/-!
# Saved modules are loaded again

The text of a module gives the module back whenever its floats are finite and its value nests no deeper
than the reader allows; a deeper one is refused as malformed. The layout of the text does not matter, and
neither does the form of the items, as long as each is read from a value with distinct names.
-/
namespace AnnotatedToC.Source

open Json

variable {blanks : Blanks} {level : Nat} {rest bs : List Char}

/-! ## Items -/

theorem readTag_write (hbs : ∀ c ∈ bs, isBlank c = true) {tag : String}
    (htag : tag = "FunctionDef" ∨ tag = "Other") :
    readTag (bs ++ ((Json.str tag).write blanks level ++ rest)) = .ok (.str tag, rest) := by
  rw [readTag, skipBlanks_append hbs, Json.write, stringText, List.cons_append,
    skipBlanks_cons rfl, List.append_assoc, List.singleton_append]
  change (readString (tag.toList.flatMap stringChar ++ '"' :: rest) >>= _) = _
  rw [readString_text]
  exact if_pos htag

theorem readItemMember_write (hblanks : blanks.Blank) {seen : List String} {m : String × Json}
    (hm : m.2.Writable) (hseen : m.1 ∉ seen)
    (htype : m.1 = "type" → ∃ tag, m.2 = .str tag ∧ (tag = "FunctionDef" ∨ tag = "Other"))
    (hrest : Stops inNumeral rest) :
    readItemMember seen m.1 (':' :: (blanks.afterColon ++ (m.2.write blanks level ++ rest))) =
      if m.2.depth ≤ depthLimit - 3 then .ok (m.2, rest) else .error .malformed := by
  by_cases hname : m.1 = "type"
  · obtain ⟨tag, hvalue, htag⟩ := htype hname
    rw [readItemMember, if_pos hname, if_neg hseen, readColon_cons, hvalue,
      if_pos (by simp [Json.depth])]
    exact readTag_write hblanks.afterColon htag
  · rw [readItemMember, if_neg hname, readColon_cons]
    change readInner _ = _
    rw [readInner, read_blanks hblanks.afterColon]
    exact read_write hblanks m.2 hm _ level hrest

theorem Item.tag_eq (i : Item) : i.tag = "FunctionDef" ∨ i.tag = "Other" := by
  cases i <;> simp [Item.tag]

/-- An item is read from the value: an object whose names are distinct. -/
def Item.IsForm (i : Item) (j : Json) : Prop :=
  ∃ members, j = .obj members ∧ (members.map Prod.fst).Nodup ∧ j.Writable ∧ Item.ofJson? j = some i

theorem readItem_write (hblanks : blanks.Blank) {i : Item} {j : Json} (h : i.IsForm j) :
    readItem (j.write blanks level ++ rest) =
      if j.depth ≤ depthLimit - 2 then .ok (i, rest) else .error .malformed := by
  obtain ⟨members, rfl, hdistinct, hwritable, hitem⟩ := h
  obtain ⟨htype, -⟩ := Item.ofJson?_obj_eq_some.mp hitem
  obtain ⟨x, hfind, hx⟩ := Fields.required_eq_some.mp htype
  rw [writable_obj] at hwritable
  have hobject : ∃ body, (obj (members.map (Prod.map id id))).write blanks level = '\x7b' :: body ∧
      readObject readString readItemMember (body ++ rest) =
        if ∀ m ∈ members, m.2.depth ≤ depthLimit - 3 then .ok (members, rest)
        else .error .malformed := by
    refine readObject_write (·.depth ≤ depthLimit - 3) hblanks members ?_ rest
    intro m hm seen rest hseen hrest
    refine readItemMember_write hblanks (hwritable m hm) (hseen hdistinct) ?_ hrest
    intro hname
    have htyped : ("type", m.2) ∈ members := by
      rwa [← hname]
    rw [Fields.eq_of_find? hfind htyped]
    exact ⟨i.tag, eq_str_of_str? hx, i.tag_eq⟩
  obtain ⟨body, hbody, hread⟩ := hobject
  rw [Prod.map_id, List.map_id] at hbody
  rw [hbody]
  change (readObject readString readItemMember (body ++ rest) >>= _) = _
  rw [hread]
  refine ite_bind_eq depth_obj_le ?_
  change (checked (Item.ofJson? (.obj members)) >>= _) = _
  rw [hitem]
  rfl

/-! ## Modules -/

theorem depth_filename (name : Option String) : (Json.ofOption .str name).depth = 0 := by
  cases name <;> rfl

theorem readFilename_write (hbs : ∀ c ∈ bs, isBlank c = true) (name : Option String) :
    readFilename (bs ++ ((Json.ofOption .str name).write blanks level ++ rest)) =
      .ok (name, rest) := by
  rw [readFilename, skipBlanks_append hbs]
  cases name with
  | none => rfl
  | some name =>
    rw [ofOption, Json.write, stringText, List.cons_append, skipBlanks_cons rfl,
      List.append_assoc, List.singleton_append]
    change (readString (name.toList.flatMap stringChar ++ '"' :: rest) >>= _) = _
    rw [readString_text]
    rfl

section Forms

variable {form : Item → Json}

theorem readItems_write (hblanks : blanks.Blank) (hbs : ∀ c ∈ bs, isBlank c = true)
    {items : List Item} (hform : ∀ i ∈ items, i.IsForm (form i)) :
    readItems (bs ++ ((Json.arr (items.map form)).write blanks level ++ rest)) =
      if (Json.arr (items.map form)).depth ≤ depthLimit - 1 then .ok (items, rest)
      else .error .malformed := by
  have hlist : ∃ body, (arr (items.map form)).write blanks level = '[' :: body ∧
      readList (fun _ => readItem) (body ++ rest) =
        if ∀ i ∈ items, (form i).depth ≤ depthLimit - 2 then .ok (items, rest)
        else .error .malformed := by
    refine readList_write hblanks items ?_ (fun i hi _ _ _ => readItem_write hblanks (hform i hi)) rest
    intro i hi
    obtain ⟨members, hobj, -⟩ := hform i hi
    rw [hobj]
    exact opens_write blanks _ trivial
  obtain ⟨body, hbody, hread⟩ := hlist
  have hdepth : (arr (items.map form)).depth ≤ depthLimit - 1 ↔
      ∀ i ∈ items, (form i).depth ≤ depthLimit - 2 :=
    depth_arr_le.trans List.forall_mem_map
  rw [readItems, skipBlanks_append hbs, hbody, List.cons_append, skipBlanks_cons rfl]
  change readList (fun _ => readItem) (body ++ rest) = _
  rw [hread]
  exact if_congr hdepth.symm rfl rfl

/-- The value of a member of a module. -/
def Part.toJson (form : Item → Json) : Part → Json
  | .filename name => .ofOption .str name
  | .body items => .arr (items.map form)
  | .unknown => .null

def Module.parts (m : Module) : List (String × Part) :=
  [("filename", .filename m.filename), ("body", .body m.body)]

/-- The value of a module whose items have the given form. -/
def Module.toJsonWith (form : Item → Json) (m : Module) : Json :=
  .obj (m.parts.map (Prod.map id (Part.toJson form)))

theorem readPart_write (hblanks : blanks.Blank) {m : Module} (hform : ∀ i ∈ m.body, i.IsForm (form i))
    {seen : List String} {y : String × Part} (hy : y ∈ m.parts) (hseen : y.1 ∉ seen) :
    readPart seen y.1
        (':' :: (blanks.afterColon ++ ((y.2.toJson form).write blanks level ++ rest))) =
      if (y.2.toJson form).depth ≤ depthLimit - 1 then .ok (y.2, rest) else .error .malformed := by
  simp only [Module.parts, List.mem_cons, List.not_mem_nil, or_false] at hy
  rcases hy with rfl | rfl
  · rw [readPart, if_pos rfl, if_neg hseen, readColon_cons, Part.toJson, depth_filename,
      if_pos (Nat.zero_le _)]
    change (readFilename _ >>= _) = _
    rw [readFilename_write hblanks.afterColon]
    rfl
  · rw [readPart, if_neg (by simp), if_pos rfl, if_neg hseen, readColon_cons, Part.toJson]
    change (readItems _ >>= _) = _
    rw [readItems_write hblanks hblanks.afterColon hform]
    exact ite_bind_eq Iff.rfl rfl

theorem readModule_write (hblanks : blanks.Blank) {m : Module}
    (hform : ∀ i ∈ m.body, i.IsForm (form i)) :
    readModule ((m.toJsonWith form).write blanks level ++ rest) =
      if (m.toJsonWith form).depth ≤ depthLimit then .ok (m, rest) else .error .malformed := by
  have hdistinct : (m.parts.map Prod.fst).Nodup := by
    simp [Module.parts]
  obtain ⟨body, hbody, hread⟩ := readObject_write
    (fun part : Part => (part.toJson form).depth ≤ depthLimit - 1) hblanks m.parts
    (fun y hy seen rest hseen _ => readPart_write hblanks hform hy (hseen hdistinct)) rest
  have hdepth : (m.toJsonWith form).depth ≤ depthLimit ↔
      ∀ y ∈ m.parts, (y.2.toJson form).depth ≤ depthLimit - 1 :=
    depth_obj_le.trans List.forall_mem_map
  rw [← Module.toJsonWith] at hbody
  rw [hbody]
  change (readObject readString readPart (body ++ rest) >>= _) = _
  rw [hread]
  exact ite_bind_eq hdepth rfl

/-- A module is loaded from any text of it, unless it nests too deep. -/
theorem Module.parse_write (hblanks : blanks.Blank) {m : Module}
    (hform : ∀ i ∈ m.body, i.IsForm (form i)) :
    Module.parse (String.ofList ((m.toJsonWith form).write blanks level)) =
      if (m.toJsonWith form).depth ≤ depthLimit then .ok m else .error .malformed := by
  have hread := @readModule_write blanks level [] form hblanks m hform
  rw [List.append_nil] at hread
  rw [Module.parse, String.toList_ofList, hread]
  exact ite_bind_eq Iff.rfl rfl

end Forms

/-! ## Floats -/

def Literal.floats : Literal → List Double
  | .float value => [value]
  | _ => []

mutual

/-- The float literals of an expression. -/
def Expr.floats : Expr → List Double
  | .constant _ value => value.floats
  | .name _ _ | .unsupported _ _ => []
  | .binary _ _ left right => left.floats ++ right.floats
  | .subscript _ value index => value.floats ++ index.floats
  | .call _ _ args => floatsOf args
  | .conditional _ test body orelse => test.floats ++ (body.floats ++ orelse.floats)
  | .tuple _ elements => floatsOf elements

def floatsOf : List Expr → List Double
  | [] => []
  | e :: es => e.floats ++ floatsOf es

end

mutual

def Stmt.floats : Stmt → List Double
  | .ret _ value => floatsOf value.toList
  | .annotated _ _ _ value => floatsOf value.toList
  | .augmented _ target _ value => target.floats ++ value.floats
  | .assign _ _ value => value.floats
  | .branch _ test body orelse => test.floats ++ (blockFloats body ++ blockFloats orelse)
  | .loop _ _ iter body orelse => iter.floats ++ (blockFloats body ++ blockFloats orelse)
  | .unsupported _ _ => []

def blockFloats : List Stmt → List Double
  | [] => []
  | s :: ss => s.floats ++ blockFloats ss

end

/-- The float literals of a module. -/
def Module.floats (m : Module) : List Double :=
  m.functions.flatMap fun f => blockFloats f.body

theorem writable_ofLine (l : LineNumber) : (ofLine l).Writable := by
  have hmin : Int64.minValue.toInt = -2 ^ 63 := rfl
  have hlt := l.toNat_lt_size
  rw [ofLine, writable_int, hmin]
  simp only [UInt32.size, UInt64.size] at hlt ⊢
  omega

theorem writable_node (l : LineNumber) (tag : String) {fields : List (String × Json)} :
    (node l tag fields).Writable ↔ ∀ f ∈ fields, f.2.Writable := by
  simp [node, writable_obj, writable_ofLine, writable_str]

theorem writable_arr_map {α : Type} {form : α → Json} {xs : List α}
    (h : ∀ x ∈ xs, (form x).Writable) : (Json.arr (xs.map form)).Writable :=
  writable_arr.mpr (List.forall_mem_map.mpr h)

theorem writable_ofOption {α : Type} {form : α → Json} {x? : Option α}
    (h : ∀ x ∈ x?, (form x).Writable) : (Json.ofOption form x?).Writable := by
  cases x? with
  | none => exact writable_null
  | some x => exact h x rfl

theorem Operator.writable_toJson (op : Operator) : op.toJson.Writable := writable_str op.tag

theorem Literal.writable_toJson {x : Literal} (h : ∀ d ∈ x.floats, d.isFinite = true) :
    x.toJson.Writable := by
  cases x with
  | int value =>
    have hmin := value.minValue_le_toInt
    have hmax := value.toInt_lt
    simp only [Literal.toJson, writable_obj, List.forall_mem_singleton, writable_int, UInt64.size]
    omega
  | float value =>
    simpa [Literal.toJson, writable_obj, writable_double, Literal.floats] using h
  | bool value => simp [Literal.toJson, writable_obj, writable_bool]
  | str value => simp [Literal.toJson, writable_obj, writable_str]
  | null => exact writable_str "none"

theorem Hint.writable_toJson (a : Hint) : a.toJson.Writable := by
  induction a with
  | name id => simp [Hint.toJson, writable_obj, writable_str]
  | null => exact writable_str "null"
  | subscript base index ih => simp [Hint.toJson, writable_obj, writable_str, ih]
  | tuple elements ih =>
    simpa [Hint.toJson, writable_obj, hintsToJson_eq_map] using writable_arr_map ih

theorem floatsOf_eq_flatMap (es : List Expr) : floatsOf es = es.flatMap Expr.floats := by
  induction es with
  | nil => rfl
  | cons e es ih => rw [floatsOf, ih, List.flatMap_cons]

theorem blockFloats_eq_flatMap (ss : List Stmt) : blockFloats ss = ss.flatMap Stmt.floats := by
  induction ss with
  | nil => rfl
  | cons s ss ih => rw [blockFloats, ih, List.flatMap_cons]

theorem Expr.writable_toJson {e : Expr} (h : ∀ d ∈ e.floats, d.isFinite = true) :
    e.toJson.Writable := by
  induction e with
  | constant l value =>
    simpa [Expr.toJson, writable_node] using Literal.writable_toJson h
  | name l id => simp [Expr.toJson, writable_node, writable_str]
  | binary l op left right ihleft ihright =>
    rw [Expr.floats, List.forall_mem_append] at h
    simp [Expr.toJson, writable_node, op.writable_toJson, ihleft h.1, ihright h.2]
  | subscript l value index ihvalue ihindex =>
    rw [Expr.floats, List.forall_mem_append] at h
    simp [Expr.toJson, writable_node, ihvalue h.1, ihindex h.2]
  | call l func args ih =>
    rw [Expr.floats, floatsOf_eq_flatMap, List.forall_mem_flatMap] at h
    have hargs := writable_arr_map fun e he => ih e he (h e he)
    simp [Expr.toJson, writable_node, writable_str, exprsToJson_eq_map, hargs]
  | conditional l test body orelse ihtest ihbody ihorelse =>
    simp only [Expr.floats, List.forall_mem_append] at h
    simp [Expr.toJson, writable_node, ihtest h.1, ihbody h.2.1, ihorelse h.2.2]
  | tuple l elements ih =>
    rw [Expr.floats, floatsOf_eq_flatMap, List.forall_mem_flatMap] at h
    have helements := writable_arr_map fun e he => ih e he (h e he)
    simp [Expr.toJson, writable_node, exprsToJson_eq_map, helements]
  | unsupported l construct => simp [Expr.toJson, writable_node, writable_str]

theorem writable_value {value : Option Expr} (h : ∀ d ∈ floatsOf value.toList, d.isFinite = true) :
    (Json.ofOption Expr.toJson value).Writable := by
  rw [floatsOf_eq_flatMap, List.forall_mem_flatMap] at h
  exact writable_ofOption fun e he => Expr.writable_toJson (h e (Option.mem_toList.mpr he))

theorem Stmt.writable_toJson {s : Stmt} (h : ∀ d ∈ s.floats, d.isFinite = true) :
    s.toJson.Writable := by
  induction s with
  | ret l value => simp [Stmt.toJson, writable_node, writable_value h]
  | annotated l target hint value =>
    simp [Stmt.toJson, writable_node, writable_str, hint.writable_toJson, writable_value h]
  | augmented l target op value =>
    rw [Stmt.floats, List.forall_mem_append] at h
    simp [Stmt.toJson, writable_node, op.writable_toJson, Expr.writable_toJson h.1,
      Expr.writable_toJson h.2]
  | assign l targets value =>
    have htargets : (Json.arr (targets.map .str)).Writable := writable_arr_map fun s _ => writable_str s
    simp [Stmt.toJson, writable_node, htargets, Expr.writable_toJson h]
  | branch l test body orelse ihbody ihorelse =>
    simp only [Stmt.floats, blockFloats_eq_flatMap, List.forall_mem_append,
      List.forall_mem_flatMap] at h
    have hbody := writable_arr_map fun s hs => ihbody s hs (h.2.1 s hs)
    have horelse := writable_arr_map fun s hs => ihorelse s hs (h.2.2 s hs)
    simp [Stmt.toJson, writable_node, stmtsToJson_eq_map, Expr.writable_toJson h.1, hbody, horelse]
  | loop l target iter body orelse ihbody ihorelse =>
    simp only [Stmt.floats, blockFloats_eq_flatMap, List.forall_mem_append,
      List.forall_mem_flatMap] at h
    have hbody := writable_arr_map fun s hs => ihbody s hs (h.2.1 s hs)
    have horelse := writable_arr_map fun s hs => ihorelse s hs (h.2.2 s hs)
    simp [Stmt.toJson, writable_node, writable_str, stmtsToJson_eq_map, Expr.writable_toJson h.1,
      hbody, horelse]
  | unsupported l construct => simp [Stmt.toJson, writable_node, writable_str]

theorem Param.writable_toJson (p : Param) : p.toJson.Writable := by
  have hhint := writable_ofOption fun a (_ : a ∈ p.hint) => a.writable_toJson
  simp [Param.toJson, writable_obj, writable_str, hhint]

theorem Function.writable_members {f : Function} (h : ∀ d ∈ blockFloats f.body, d.isFinite = true) :
    ∀ m ∈ f.members, m.2.Writable := by
  rw [blockFloats_eq_flatMap, List.forall_mem_flatMap] at h
  have hparams := writable_arr_map fun p (_ : p ∈ f.params) => p.writable_toJson
  have hreturns := writable_ofOption fun a (_ : a ∈ f.returns) => a.writable_toJson
  have hbody := writable_arr_map fun s hs => Stmt.writable_toJson (h s hs)
  simp [Function.members, writable_str, writable_ofLine, stmtsToJson_eq_map, hparams, hreturns, hbody]

theorem Item.writable_toJson {i : Item}
    (h : ∀ f, i = .function f → ∀ d ∈ blockFloats f.body, d.isFinite = true) : i.toJson.Writable := by
  cases i with
  | function f =>
    rw [Item.toJson, writable_obj, List.forall_mem_cons]
    exact ⟨writable_str _, Function.writable_members (h f rfl)⟩
  | other construct line => simp [Item.toJson, writable_obj, writable_str, writable_ofLine]

theorem Item.isForm_toJson {i : Item} (h : i.toJson.Writable) : i.IsForm i.toJson := by
  have hitem := i.ofJson?_toJson
  cases i with
  | function f => exact ⟨_, rfl, by simp [Function.members], h, hitem⟩
  | other construct line => exact ⟨_, rfl, by simp, h, hitem⟩

theorem Module.mem_functions {m : Module} {f : Function} (h : .function f ∈ m.body) :
    f ∈ m.functions :=
  List.mem_filterMap.mpr ⟨_, h, rfl⟩

theorem Module.parse_save {m : Module} (h : ∀ i ∈ m.body, i.toJson.Writable) :
    Module.parse m.save = if m.toJson.depth ≤ depthLimit then .ok m else .error .malformed :=
  Module.parse_write Blanks.blank_lines fun i hi => Item.isForm_toJson (h i hi)

/-- A module is loaded from its saved text exactly as it was, up to the depth that the reader allows. -/
theorem Module.parse_save_eq_ok_iff {m : Module} (h : ∀ d ∈ m.floats, d.isFinite = true) :
    Module.parse m.save = .ok m ↔ m.toJson.depth ≤ depthLimit := by
  have hwritable : ∀ i ∈ m.body, i.toJson.Writable := by
    intro i hi
    refine Item.writable_toJson fun f hf d hd => h d (List.mem_flatMap.mpr ⟨f, ?_, hd⟩)
    exact Module.mem_functions (hf ▸ hi)
  rw [Module.parse_save hwritable]
  by_cases hdepth : m.toJson.depth ≤ depthLimit
  · simp [hdepth]
  · simp [hdepth]

/-- A parameter without annotation, a result annotated with None, a string that needs escapes, and two
floats that differ only in their last bit. -/
def roundTripModule : Module where
  filename := some "a\"b.py"
  body := [.other "Import" 1, .function {
    name := "f"
    params := [⟨"a", some (.subscript "Array" (.tuple [.name "float", .null]))⟩, ⟨"n", none⟩]
    returns := some .null
    line := 2
    body := [
      .loop 3 "i" (.call 3 "range" [.name 3 "n", .constant 3 (.int (-1))])
        [.augmented 4 (.subscript 4 (.name 4 "a") (.name 4 "i")) .matMult
          (.conditional 4 (.constant 4 (.str "\n\x01é"))
            (.constant 4 (.float ⟨0x3FB999999999999A⟩)) (.constant 4 (.float ⟨0x3FB999999999999B⟩)))]
        [],
      .ret 5 none] }]

theorem Module.parse_save_roundTripModule :
    (∀ d ∈ roundTripModule.floats, d.isFinite = true) ∧
      Module.parse roundTripModule.save = .ok roundTripModule := by
  have hfinite : ∀ d ∈ roundTripModule.floats, d.isFinite = true := by decide
  exact ⟨hfinite, (Module.parse_save_eq_ok_iff hfinite).mpr (by decide)⟩

end AnnotatedToC.Source
