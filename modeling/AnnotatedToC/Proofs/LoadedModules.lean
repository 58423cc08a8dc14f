import AnnotatedToC.Proofs.Readers
import AnnotatedToC.Proofs.SavedModules

/-!
# Loaded modules are saved and loaded again

Loading takes more than saving writes, and saving writes every field. All that is added lies no deeper
than what was there, with one exception: the empty list of arguments of a call that was given without
arguments. So a loaded module is loaded again from its saved text unless such a call lies as deep as the
reader goes.
-/
namespace AnnotatedToC.Source

open Json

/-! ## Values that fit -/

/-- A value that can be written and nests at most `n` deep, but for the list of arguments of a call
without arguments that lies at the limit itself. -/
def Fits (n : Nat) (j : Json) : Prop :=
  j.Writable ∧ (j.depth ≤ n ∨ ∃ k line func, n = k + 1 ∧ At (Expr.call line func []).toJson k j)

theorem Fits.of_depth_le {n : Nat} {j : Json} (hwritable : j.Writable) (hdepth : j.depth ≤ n) :
    Fits n j :=
  ⟨hwritable, .inl hdepth⟩

theorem fits_of_parts {n : Nat} {j : Json} (hj : j.NumberFits) (h : ∀ x ∈ j.parts, Fits n x) :
    Fits (n + 1) j := by
  refine ⟨writable_iff.mpr ⟨hj, fun x hx => (h x hx).1⟩, ?_⟩
  by_cases hdepth : ∀ x ∈ j.parts, x.depth ≤ n
  · exact .inl (depth_le_succ.mpr hdepth)
  · push Not at hdepth
    -- a part that is too deep holds the call, which lies one level deeper in the whole
    obtain ⟨x, hx, hlt⟩ := hdepth
    obtain ⟨-, hle | ⟨k, line, func, rfl, hat⟩⟩ := h x hx
    · omega
    · exact .inr ⟨k + 1, line, func, rfl, .part hx hat⟩

theorem fits_arr {n : Nat} {xs : List Json} (h : ∀ x ∈ xs, Fits n x) : Fits (n + 1) (.arr xs) :=
  fits_of_parts trivial h

theorem fits_obj {n : Nat} {members : List (String × Json)} (h : ∀ m ∈ members, Fits n m.2) :
    Fits (n + 1) (.obj members) :=
  fits_of_parts trivial (List.forall_mem_map.mpr h)

theorem fits_node {n : Nat} (line : LineNumber) (tag : String) {fields : List (String × Json)}
    (h : ∀ f ∈ fields, Fits n f.2) : Fits (n + 1) (node line tag fields) := by
  refine fits_obj (List.forall_mem_cons.mpr ⟨?_, List.forall_mem_cons.mpr ⟨?_, h⟩⟩)
  · exact .of_depth_le (writable_ofLine line) (Nat.zero_le n)
  · exact .of_depth_le (writable_str tag) (Nat.zero_le n)

theorem one_le_depth_obj (members : List (String × Json)) : 1 ≤ (Json.obj members).depth := by
  rw [Json.depth]
  omega

theorem one_le_depth_of_mem_parts {j x : Json} (h : x ∈ j.parts) : 1 ≤ j.depth := by
  have hdepth := (At.part h .root).depth_le
  omega

/-! ## Kept values -/

section Kept

variable {α : Type} {decode : Json → Option α} {encode : α → Json} {n : Nat}

/-- What is decoded as `x` is encoded again within the same depth. -/
def Kept (decode : Json → Option α) (encode : α → Json) (x : α) : Prop :=
  ∀ j n, j.Writable → j.depth ≤ n → decode j = some x → Fits n (encode x)

theorem kept_leaf {x : α} (hwritable : (encode x).Writable) (hdepth : (encode x).depth = 0) :
    Kept decode encode x :=
  fun _ _ _ _ _ => .of_depth_le hwritable (hdepth ▸ Nat.zero_le _)

theorem kept_str (s : String) : Kept str? .str s := kept_leaf (writable_str s) rfl

theorem list?_eq_some {j : Json} {xs : List α} (h : list? decode j = some xs) :
    ∃ elements, j = .arr elements ∧ ∀ x ∈ xs, ∃ c ∈ elements, decode c = some x := by
  obtain ⟨elements, harr, hmap⟩ := Option.bind_eq_some_iff.mp h
  cases j with
  | arr js =>
    cases harr
    exact ⟨elements, rfl, fun x hx => exists_of_mem_mapM? hmap hx⟩
  | _ => cases harr

theorem Kept.list {xs : List α} (h : ∀ x ∈ xs, Kept decode encode x) :
    Kept (list? decode) (fun xs => .arr (xs.map encode)) xs := by
  intro j n hwritable hdepth hdecode
  obtain ⟨elements, rfl, hmem⟩ := list?_eq_some hdecode
  rw [writable_arr] at hwritable
  cases n with
  | zero => simp [Json.depth] at hdepth
  | succ n =>
    rw [depth_arr_le] at hdepth
    refine fits_arr (List.forall_mem_map.mpr fun x hx => ?_)
    obtain ⟨c, hc, hx'⟩ := hmem x hx
    exact h x hx c n (hwritable c hc) (hdepth c hc) hx'

theorem Kept.nullable {x? : Option α} (h : ∀ x ∈ x?, Kept decode encode x) :
    Kept (nullable? decode) (ofOption encode) x? := by
  intro j n hwritable hdepth hdecode
  cases x? with
  | none => exact .of_depth_le writable_null (Nat.zero_le n)
  | some x =>
    unfold nullable? at hdecode
    split at hdecode
    · cases hdecode
    · obtain ⟨x', hx, hx'⟩ := Option.map_eq_some_iff.mp hdecode
      cases hx'
      exact h x rfl _ n hwritable hdepth hx

/-- Members that can be written and nest at most `n` deep. -/
def Bounded (n : Nat) (members : Fields Json) : Prop :=
  ∀ m ∈ members, m.2.Writable ∧ m.2.depth ≤ n

variable {members : Fields Json} {name : String} {x : α}

theorem Kept.required (h : Kept decode encode x) (hmembers : Bounded n members)
    (hx : members.required name decode = some x) : Fits n (encode x) := by
  obtain ⟨j, hfind, hdecode⟩ := Fields.required_eq_some.mp hx
  obtain ⟨hwritable, hdepth⟩ := hmembers _ (Fields.mem_of_find? hfind)
  exact h j n hwritable hdepth hdecode

theorem Kept.optional (h : Kept decode encode x) (hmembers : Bounded n members) {y : α}
    (hx : members.optional name decode y = some x) (hdefault : Fits n (encode y)) :
    Fits n (encode x) := by
  rcases Fields.optional_eq_some.mp hx with ⟨-, rfl⟩ | ⟨j, hfind, hdecode⟩
  · exact hdefault
  · obtain ⟨hwritable, hdepth⟩ := hmembers _ (Fields.mem_of_find? hfind)
    exact h j n hwritable hdepth hdecode

theorem Bounded.of_obj (hwritable : (Json.obj members).Writable)
    (hdepth : (Json.obj members).depth ≤ n + 1) : Bounded n members := by
  rw [writable_obj] at hwritable
  rw [depth_obj_le] at hdepth
  exact fun m hm => ⟨hwritable m hm, hdepth m hm⟩

theorem Bounded.of_fields? {names : List String} {j : Json} (hj : j.fields? names = some members)
    (hwritable : j.Writable) (hdepth : j.depth ≤ n + 1) : Bounded n members := by
  cases j with
  | obj ms =>
    cases hj
    exact .of_obj hwritable hdepth
  | arr elements =>
    obtain ⟨-, hzip⟩ := Option.ite_none_right_eq_some.mp hj
    cases hzip
    rw [writable_arr] at hwritable
    rw [depth_arr_le] at hdepth
    intro m hm
    have hmem := (List.of_mem_zip hm).2
    exact ⟨hwritable _ hmem, hdepth _ hmem⟩
  | _ => cases hj

end Kept

/-! ## Trees -/

theorem Operator.kept (reading : Reading) (op : Operator) :
    Kept (Operator.ofJson? reading) Operator.toJson op :=
  kept_leaf op.writable_toJson rfl

theorem isFinite_of_double? {j : Json} (hj : j.Writable) {d : Double} (h : j.double? = some d) :
    d.isFinite = true := by
  cases j with
  | int n =>
    obtain ⟨hmin, hmax⟩ := writable_int.mp hj
    have hmin' : Int64.minValue.toInt = -2 ^ 63 := rfl
    rw [hmin'] at hmin
    simp only [UInt64.size] at hmax
    cases h
    exact Double.isFinite_ofInt (by omega)
  | double d' =>
    cases h
    exact writable_double.mp hj
  | _ => cases h

theorem Literal.kept (reading : Reading) (x : Literal) :
    Kept (Literal.ofJson? reading) Literal.toJson x := by
  intro j n hwritable hdepth h
  have hone : x.toJson.depth ≤ 1 := by
    cases x <;> simp [Literal.toJson, Json.depth, depthOfMembers]
  have hfits (hj : 1 ≤ j.depth) (hfinite : ∀ d ∈ x.floats, d.isFinite = true) : Fits n x.toJson :=
    .of_depth_le (Literal.writable_toJson hfinite) (hone.trans (hj.trans hdepth))
  unfold Literal.ofJson? at h
  split at h
  · obtain ⟨value, -, rfl⟩ := Option.map_eq_some_iff.mp h
    exact hfits (one_le_depth_obj _) (by simp [Literal.floats])
  · obtain ⟨value, hvalue, rfl⟩ := Option.map_eq_some_iff.mp h
    rw [writable_obj, List.forall_mem_singleton] at hwritable
    refine hfits (one_le_depth_obj _) ?_
    simpa [Literal.floats] using isFinite_of_double? hwritable hvalue
  · obtain ⟨value, -, rfl⟩ := Option.map_eq_some_iff.mp h
    exact hfits (one_le_depth_obj _) (by simp [Literal.floats])
  · obtain ⟨value, -, rfl⟩ := Option.map_eq_some_iff.mp h
    exact hfits (one_le_depth_obj _) (by simp [Literal.floats])
  · obtain ⟨-, hx⟩ := Option.ite_none_right_eq_some.mp h
    cases hx
    exact .of_depth_le (writable_str _) (Nat.zero_le n)

/-- The annotations inside an annotation are made of parts of a value. -/
def Hint.PartsIn (reading : Reading) (j : Json) : Hint → Prop
  | .name _ | .null => True
  | .subscript _ index => ∃ x ∈ j.parts, Hint.ofJson? reading x = some index
  | .tuple elements => list? (Hint.ofJson? reading) j = some elements

theorem Hint.partsIn_subscript {reading : Reading} {j : Json} {a : Hint}
    (h : subscriptOfJson? reading j = some a) : a.PartsIn reading j := by
  cases j with
  | obj members =>
    rw [subscriptOfJson?_obj] at h
    obtain ⟨base, -, h⟩ := Option.bind_eq_some_iff.mp h
    obtain ⟨index, hindex, h⟩ := Option.bind_eq_some_iff.mp h
    cases h
    obtain ⟨x, hfind, hx⟩ := Fields.required_eq_some.mp hindex
    exact ⟨x, List.mem_map.mpr ⟨_, Fields.mem_of_find? hfind, rfl⟩, hx⟩
  | arr elements =>
    unfold subscriptOfJson? at h
    split at h
    · cases ‹Json.arr elements = _›
    · cases ‹Json.arr elements = _›
      split at h
      · cases h
      · obtain ⟨base, -, h⟩ := Option.bind_eq_some_iff.mp h
        obtain ⟨index, hindex, h⟩ := Option.bind_eq_some_iff.mp h
        cases h
        exact ⟨_, by simp [Json.parts], hindex⟩
    · cases h
  | _ => cases h

theorem Hint.ofJson?_eq_some {reading : Reading} {j : Json} {a : Hint}
    (h : Hint.ofJson? reading j = some a) :
    a = .null ∨ ∃ key x, j = .obj [(key, x)] ∧ a.PartsIn reading x := by
  unfold Hint.ofJson? at h
  split at h
  · obtain ⟨id, -, rfl⟩ := Option.map_eq_some_iff.mp h
    exact .inr ⟨_, _, rfl, trivial⟩
  · exact .inr ⟨_, _, rfl, Hint.partsIn_subscript h⟩
  · rw [tupleOfJson?_eq] at h
    obtain ⟨elements, helements, rfl⟩ := Option.map_eq_some_iff.mp h
    exact .inr ⟨_, _, rfl, helements⟩
  · obtain ⟨-, ha⟩ := Option.ite_none_right_eq_some.mp h
    cases ha
    exact .inl rfl

theorem Hint.kept (reading : Reading) (a : Hint) : Kept (Hint.ofJson? reading) Hint.toJson a := by
  induction a with
  | name id =>
    intro j n hwritable hdepth h
    obtain ⟨key, x, rfl, -⟩ := (Hint.ofJson?_eq_some h).resolve_left (by simp)
    obtain ⟨n, rfl⟩ := Nat.exists_eq_add_of_le' ((one_le_depth_obj _).trans hdepth)
    exact fits_obj (List.forall_mem_singleton.mpr (.of_depth_le (writable_str id) (Nat.zero_le n)))
  | null => exact kept_leaf (writable_str _) rfl
  | subscript base index ih =>
    intro j n hwritable hdepth h
    obtain ⟨key, x, rfl, c, hc, hindex⟩ := (Hint.ofJson?_eq_some h).resolve_left (by simp)
    obtain ⟨n, rfl⟩ := Nat.exists_eq_add_of_le' ((one_le_depth_obj _).trans hdepth)
    obtain ⟨hx, hdepth⟩ := Bounded.of_obj hwritable hdepth _ List.mem_cons_self
    obtain ⟨n, rfl⟩ := Nat.exists_eq_add_of_le' ((one_le_depth_of_mem_parts hc).trans hdepth)
    have hfits := ih c n ((writable_iff.mp hx).2 c hc) (depth_le_succ.mp hdepth c hc) hindex
    refine fits_obj (List.forall_mem_singleton.mpr (fits_obj ?_))
    simpa using ⟨.of_depth_le (writable_str base) (Nat.zero_le n), hfits⟩
  | tuple elements ih =>
    intro j n hwritable hdepth h
    obtain ⟨key, x, rfl, hlist⟩ := (Hint.ofJson?_eq_some h).resolve_left (by simp)
    obtain ⟨n, rfl⟩ := Nat.exists_eq_add_of_le' ((one_le_depth_obj _).trans hdepth)
    obtain ⟨hx, hdepth⟩ := Bounded.of_obj hwritable hdepth _ List.mem_cons_self
    rw [Hint.toJson, hintsToJson_eq_map]
    exact fits_obj (List.forall_mem_singleton.mpr (Kept.list ih x n hx hdepth hlist))

/-- The members of a node lie one level deeper than the node. -/
theorem Expr.kept_of_fieldsIn {e : Expr} (h : ∀ members n, Bounded n members →
    e.FieldsIn members → Fits (n + 1) e.toJson) : Kept Expr.ofJson? Expr.toJson e := by
  intro j n hwritable hdepth hdecode
  cases j with
  | obj members =>
    obtain ⟨n, rfl⟩ := Nat.exists_eq_add_of_le' ((one_le_depth_obj _).trans hdepth)
    exact h members n (.of_obj hwritable hdepth) (Expr.ofJson?_eq_some.mp hdecode).2
  | _ => cases hdecode

theorem depth_call_nil (line : LineNumber) (func : String) :
    (Expr.call line func []).toJson.depth = 2 := by
  simp [Expr.toJson, node, exprsToJson, ofLine, Json.depth, depthOf, depthOfMembers]

/-- A call without arguments fits by itself. -/
theorem fits_call_nil (n : Nat) (line : LineNumber) (func : String) :
    Fits (n + 1) (Expr.call line func []).toJson := by
  have hwritable : (Expr.call line func []).toJson.Writable :=
    Expr.writable_toJson (by simp [Expr.floats, floatsOf])
  cases n with
  | zero => exact ⟨hwritable, .inr ⟨0, line, func, rfl, .root⟩⟩
  | succ n =>
    refine .of_depth_le hwritable ?_
    rw [depth_call_nil]
    omega

theorem Expr.kept (e : Expr) : Kept Expr.ofJson? Expr.toJson e := by
  induction e with
  | constant l value =>
    apply Expr.kept_of_fieldsIn
    intro members n hmembers hvalue
    apply fits_node
    simpa using (Literal.kept .lenient value).required hmembers hvalue
  | name l id =>
    apply Expr.kept_of_fieldsIn
    intro members n hmembers hid
    apply fits_node
    simpa using (kept_str id).required hmembers hid
  | binary l op left right ihleft ihright =>
    apply Expr.kept_of_fieldsIn
    rintro members n hmembers ⟨hop, hleft, hright⟩
    apply fits_node
    simpa using ⟨(op.kept .lenient).required hmembers hop, ihleft.required hmembers hleft,
      ihright.required hmembers hright⟩
  | subscript l value index ihvalue ihindex =>
    apply Expr.kept_of_fieldsIn
    rintro members n hmembers ⟨hvalue, hindex⟩
    apply fits_node
    simpa using ⟨ihvalue.required hmembers hvalue, ihindex.required hmembers hindex⟩
  | call l func args ih =>
    apply Expr.kept_of_fieldsIn
    rintro members n hmembers ⟨hfunc, hargs⟩
    -- the one field that is written, and takes room, where nothing was given
    rcases Fields.optional_eq_some.mp hargs with ⟨-, rfl⟩ | ⟨x, hfind, hlist⟩
    · exact fits_call_nil n l func
    · obtain ⟨hx, hdepth⟩ := hmembers _ (Fields.mem_of_find? hfind)
      rw [Expr.toJson, exprsToJson_eq_map]
      apply fits_node
      simpa using ⟨(kept_str func).required hmembers hfunc, Kept.list ih x n hx hdepth hlist⟩
  | conditional l test body orelse ihtest ihbody ihorelse =>
    apply Expr.kept_of_fieldsIn
    rintro members n hmembers ⟨htest, hbody, horelse⟩
    apply fits_node
    simpa using ⟨ihtest.required hmembers htest, ihbody.required hmembers hbody,
      ihorelse.required hmembers horelse⟩
  | tuple l elements ih =>
    apply Expr.kept_of_fieldsIn
    intro members n hmembers helements
    rw [Expr.toJson, exprsToJson_eq_map]
    apply fits_node
    simpa using (Kept.list ih).required hmembers helements
  | unsupported l construct =>
    apply Expr.kept_of_fieldsIn
    intro members n hmembers hconstruct
    apply fits_node
    simpa using (kept_str construct).required hmembers hconstruct

theorem Stmt.kept_of_fieldsIn {s : Stmt} (h : ∀ members n, Bounded n members →
    s.FieldsIn members → Fits (n + 1) s.toJson) : Kept Stmt.ofJson? Stmt.toJson s := by
  intro j n hwritable hdepth hdecode
  cases j with
  | obj members =>
    obtain ⟨n, rfl⟩ := Nat.exists_eq_add_of_le' ((one_le_depth_obj _).trans hdepth)
    exact h members n (.of_obj hwritable hdepth) (Stmt.ofJson?_eq_some.mp hdecode).2
  | _ => cases hdecode

theorem kept_value (value : Option Expr) :
    Kept (nullable? Expr.ofJson?) (ofOption Expr.toJson) value :=
  .nullable fun e _ => e.kept

theorem fits_null (n : Nat) : Fits n .null := .of_depth_le writable_null (Nat.zero_le n)

theorem fits_nil {n : Nat} (h : 1 ≤ n) : Fits n (.arr []) :=
  .of_depth_le (writable_arr.mpr (by simp)) (by simpa [Json.depth, depthOf] using h)

/-- Where a block is given, there is room for the empty block beside it. -/
theorem one_le_of_block {n : Nat} {members : Fields Json} (hmembers : Bounded n members)
    {name : String} {body : List Stmt}
    (h : members.required name (list? Stmt.ofJson?) = some body) : 1 ≤ n := by
  obtain ⟨j, hfind, hlist⟩ := Fields.required_eq_some.mp h
  obtain ⟨elements, rfl, -⟩ := list?_eq_some hlist
  have hdepth := (hmembers _ (Fields.mem_of_find? hfind)).2
  rw [Json.depth] at hdepth
  omega

theorem Stmt.kept (s : Stmt) : Kept Stmt.ofJson? Stmt.toJson s := by
  induction s with
  | ret l value =>
    apply Stmt.kept_of_fieldsIn
    intro members n hmembers hvalue
    apply fits_node
    simpa using (kept_value value).optional hmembers hvalue (fits_null n)
  | annotated l target hint value =>
    apply Stmt.kept_of_fieldsIn
    rintro members n hmembers ⟨htarget, hhint, hvalue⟩
    apply fits_node
    simpa using ⟨(kept_str target).required hmembers htarget,
      (hint.kept .lenient).required hmembers hhint,
      (kept_value value).optional hmembers hvalue (fits_null n)⟩
  | augmented l target op value =>
    apply Stmt.kept_of_fieldsIn
    rintro members n hmembers ⟨htarget, hop, hvalue⟩
    apply fits_node
    simpa using ⟨target.kept.required hmembers htarget, (op.kept .lenient).required hmembers hop,
      value.kept.required hmembers hvalue⟩
  | assign l targets value =>
    apply Stmt.kept_of_fieldsIn
    rintro members n hmembers ⟨htargets, hvalue⟩
    apply fits_node
    simpa using ⟨(Kept.list fun s _ => kept_str s).required hmembers htargets,
      value.kept.required hmembers hvalue⟩
  | branch l test body orelse ihbody ihorelse =>
    apply Stmt.kept_of_fieldsIn
    rintro members n hmembers ⟨htest, hbody, horelse⟩
    have hnil := fits_nil (one_le_of_block hmembers hbody)
    rw [Stmt.toJson, stmtsToJson_eq_map, stmtsToJson_eq_map]
    apply fits_node
    simpa using ⟨test.kept.required hmembers htest, (Kept.list ihbody).required hmembers hbody,
      (Kept.list ihorelse).optional hmembers horelse hnil⟩
  | loop l target iter body orelse ihbody ihorelse =>
    apply Stmt.kept_of_fieldsIn
    rintro members n hmembers ⟨htarget, hiter, hbody, horelse⟩
    have hnil := fits_nil (one_le_of_block hmembers hbody)
    rw [Stmt.toJson, stmtsToJson_eq_map, stmtsToJson_eq_map]
    apply fits_node
    simpa using ⟨(kept_str target).required hmembers htarget, iter.kept.required hmembers hiter,
      (Kept.list ihbody).required hmembers hbody,
      (Kept.list ihorelse).optional hmembers horelse hnil⟩
  | unsupported l construct =>
    apply Stmt.kept_of_fieldsIn
    intro members n hmembers hconstruct
    apply fits_node
    simpa using (kept_str construct).required hmembers hconstruct

theorem kept_hint (reading : Reading) (a? : Option Hint) :
    Kept (nullable? (Hint.ofJson? reading)) (ofOption Hint.toJson) a? :=
  .nullable fun a _ => a.kept reading

theorem Param.kept (reading : Reading) (p : Param) : Kept (Param.ofJson? reading) Param.toJson p := by
  intro j n hwritable hdepth h
  obtain ⟨fields, hfields, h⟩ := Option.bind_eq_some_iff.mp h
  obtain ⟨name, hname, h⟩ := Option.bind_eq_some_iff.mp h
  obtain ⟨hint, hhint, h⟩ := Option.bind_eq_some_iff.mp h
  cases h
  have hone : 1 ≤ j.depth := by
    cases j with
    | obj members => exact one_le_depth_obj members
    | arr elements =>
      rw [Json.depth]
      omega
    | _ => cases hfields
  obtain ⟨n, rfl⟩ := Nat.exists_eq_add_of_le' (hone.trans hdepth)
  have hmembers := Bounded.of_fields? hfields hwritable hdepth
  refine fits_obj ?_
  simpa using ⟨(kept_str name).required hmembers hname,
    (kept_hint reading hint).optional hmembers hhint (fits_null n)⟩

theorem Function.fits_members {reading : Reading} {fields : Fields Json} {f : Function} {n : Nat}
    (hn : 1 ≤ n) (hfields : Bounded n fields) (h : f.FieldsIn reading fields) :
    ∀ m ∈ f.members, Fits n m.2 := by
  have hparams := (Kept.list fun p (_ : p ∈ f.params) => p.kept reading).optional hfields
    h.params (fits_nil hn)
  have hbody := (Kept.list fun s (_ : s ∈ f.body) => s.kept).optional hfields h.body (fits_nil hn)
  rw [← stmtsToJson_eq_map] at hbody
  simpa [Function.members] using ⟨(kept_str f.name).required hfields h.name, hparams,
    (kept_hint reading f.returns).optional hfields h.returns (fits_null n), hbody,
    .of_depth_le (writable_ofLine f.line) (Nat.zero_le n)⟩

theorem Item.fits_toJson {fields : Fields Json} {i : Item} {n : Nat} (hn : 1 ≤ n)
    (hfields : Bounded n fields) (h : i.FieldsIn fields) : Fits (n + 1) i.toJson := by
  cases i with
  | function f =>
    refine fits_obj (List.forall_mem_cons.mpr ⟨?_, Function.fits_members hn hfields h⟩)
    exact .of_depth_le (writable_str _) (Nat.zero_le n)
  | other construct line =>
    refine .of_depth_le (Item.writable_toJson (by simp)) ?_
    simp [Item.toJson, Json.depth, depthOfMembers, ofLine]

theorem Item.fits_of_ofJson? {j : Json} {i : Item} {n : Nat} (hn : 1 ≤ n) (hwritable : j.Writable)
    (hdepth : j.depth ≤ n + 1) (h : Item.ofJson? j = some i) : Fits (n + 1) i.toJson := by
  cases j with
  | obj members =>
    exact Item.fits_toJson hn (.of_obj hwritable hdepth) (Item.ofJson?_obj_eq_some.mp h).2
  | arr elements =>
    cases elements with
    | nil => cases h
    | cons tag elements =>
      obtain ⟨tag', -, h⟩ := Option.bind_eq_some_iff.mp h
      obtain ⟨-, fields, hfields, h⟩ := Item.ofFields?_eq_some.mp h
      rw [writable_arr, List.forall_mem_cons] at hwritable
      rw [depth_arr_le, List.forall_mem_cons] at hdepth
      exact Item.fits_toJson hn
        (.of_fields? hfields (writable_arr.mpr hwritable.2) (depth_arr_le.mpr hdepth.2)) h
  | _ => cases h

/-! ## Files -/

section Files

variable {text rest : List Char}

theorem isLeaf_readTag {j : Json} (h : readTag text = .ok (j, rest)) : j.IsLeaf := by
  unfold readTag at h
  split at h
  · obtain ⟨⟨tag, after⟩, -, h⟩ := bind_eq_ok.mp h
    dsimp only at h
    split_ifs at h
    cases h
    exact ⟨writable_str tag, rfl⟩
  · cases h

theorem readItemMember_eq_ok {seen : List String} {name : String} {j : Json}
    (h : readItemMember seen name text = .ok (j, rest)) :
    j.Writable ∧ j.depth ≤ depthLimit - 3 := by
  unfold readItemMember at h
  split_ifs at h
  · obtain ⟨after, -, h⟩ := bind_eq_ok.mp h
    have hleaf := isLeaf_readTag h
    exact ⟨hleaf.1, hleaf.2 ▸ Nat.zero_le _⟩
  · obtain ⟨after, -, h⟩ := bind_eq_ok.mp h
    exact read_eq_ok h

theorem readItemElement_eq_ok {index : Nat} {j : Json}
    (h : (if index = 0 then readTag else readInner) text = .ok (j, rest)) :
    j.Writable ∧ j.depth ≤ depthLimit - 3 := by
  split_ifs at h
  · have hleaf := isLeaf_readTag h
    exact ⟨hleaf.1, hleaf.2 ▸ Nat.zero_le _⟩
  · exact read_eq_ok h

theorem checked_eq_ok {α : Type} {x? : Option α} {x : α} (h : checked x? = .ok x) : x? = some x := by
  cases x? with
  | none => cases h
  | some x' =>
    cases h
    rfl

theorem fits_readItem {i : Item} (h : readItem text = .ok (i, rest)) :
    Fits (depthLimit - 2) i.toJson := by
  unfold readItem at h
  split at h
  · obtain ⟨⟨members, after⟩, hmembers, h⟩ := bind_eq_ok.mp h
    obtain ⟨i', hi, h⟩ := bind_eq_ok.mp h
    cases h
    have hbounds : ∀ m ∈ members, m.2.Writable ∧ m.2.depth ≤ depthLimit - 3 := by
      intro m hm
      obtain ⟨_, _, _, hread⟩ := exists_of_mem_readObject hmembers hm
      exact readItemMember_eq_ok hread
    exact Item.fits_of_ofJson? (by decide) (writable_obj.mpr fun m hm => (hbounds m hm).1)
      (depth_obj_le.mpr fun m hm => (hbounds m hm).2) (checked_eq_ok hi)
  · obtain ⟨⟨elements, after⟩, helements, h⟩ := bind_eq_ok.mp h
    obtain ⟨i', hi, h⟩ := bind_eq_ok.mp h
    cases h
    have hbounds : ∀ x ∈ elements, x.Writable ∧ x.depth ≤ depthLimit - 3 := by
      intro x hx
      obtain ⟨_, _, _, hread⟩ := exists_of_mem_readList helements hx
      exact readItemElement_eq_ok hread
    exact Item.fits_of_ofJson? (by decide) (writable_arr.mpr fun x hx => (hbounds x hx).1)
      (depth_arr_le.mpr fun x hx => (hbounds x hx).2) (checked_eq_ok hi)
  · cases h

theorem fits_readItems {items : List Item} (h : readItems text = .ok (items, rest)) :
    ∀ i ∈ items, Fits (depthLimit - 2) i.toJson := by
  intro i hi
  unfold readItems at h
  split at h
  · obtain ⟨_, _, _, hread⟩ := exists_of_mem_readList h hi
    exact fits_readItem hread
  · cases h

theorem fits_readPart {seen : List String} {name : String} {part : Part}
    (h : readPart seen name text = .ok (part, rest)) {items : List Item}
    (hpart : part.body? = some items) : ∀ i ∈ items, Fits (depthLimit - 2) i.toJson := by
  unfold readPart at h
  split_ifs at h
  · obtain ⟨after, -, h⟩ := bind_eq_ok.mp h
    obtain ⟨⟨filename, after'⟩, -, h⟩ := bind_eq_ok.mp h
    cases h
    cases hpart
  · obtain ⟨after, -, h⟩ := bind_eq_ok.mp h
    obtain ⟨⟨items', after'⟩, hitems, h⟩ := bind_eq_ok.mp h
    cases h
    cases hpart
    exact fits_readItems hitems
  · obtain ⟨after, -, h⟩ := bind_eq_ok.mp h
    obtain ⟨⟨⟨⟩, after'⟩, -, h⟩ := bind_eq_ok.mp h
    cases h
    cases hpart

theorem fits_ofParts {parts : List (String × Part)}
    (h : ∀ p ∈ parts, ∀ items, p.2.body? = some items → ∀ i ∈ items, Fits (depthLimit - 2) i.toJson) :
    ∀ i ∈ (Module.ofParts parts).body, Fits (depthLimit - 2) i.toJson := by
  intro i hi
  rw [Module.ofParts] at hi
  cases hfind : parts.findSome? (·.2.body?) with
  | none => simp [hfind] at hi
  | some items =>
    obtain ⟨p, hp, hbody⟩ := List.exists_of_findSome?_eq_some hfind
    rw [hfind] at hi
    exact h p hp items hbody i hi

theorem readListEnd_eq_ok {m m' : Module} (h : readListEnd m text = .ok (m', rest)) : m' = m := by
  unfold readListEnd at h
  split at h
  · cases h
  · cases h
    rfl
  · cases h

theorem fits_readListBody {filename : Option String} {m : Module}
    (h : readListBody filename text = .ok (m, rest)) :
    ∀ i ∈ m.body, Fits (depthLimit - 2) i.toJson := by
  unfold readListBody at h
  split at h
  · cases h
  · cases h
    simp
  · split at h
    · cases h
    · cases h
    · obtain ⟨⟨items, after⟩, hitems, h⟩ := bind_eq_ok.mp h
      rw [readListEnd_eq_ok h]
      exact fits_readItems hitems
  · cases h

theorem fits_readModule {m : Module} (h : readModule text = .ok (m, rest)) :
    ∀ i ∈ m.body, Fits (depthLimit - 2) i.toJson := by
  unfold readModule at h
  split at h
  · obtain ⟨⟨parts, after⟩, hparts, h⟩ := bind_eq_ok.mp h
    cases h
    refine fits_ofParts fun p hp items hitems => ?_
    obtain ⟨_, _, _, hread⟩ := exists_of_mem_readObject hparts hp
    exact fits_readPart hread hitems
  · split at h
    · cases h
    · cases h
      simp
    · obtain ⟨⟨filename, after⟩, -, h⟩ := bind_eq_ok.mp h
      exact fits_readListBody h
  · cases h

end Files

/-- What was loaded is saved within the depth of the reader, but for the list of arguments of a call. -/
theorem Module.fits_of_parse {text : String} {m : Module} (h : Module.parse text = .ok m) :
    Fits depthLimit m.toJson := by
  obtain ⟨⟨m', after⟩, hread, h⟩ := bind_eq_ok.mp h
  dsimp only at h
  split at h
  · cases h
    have hbody : Fits (depthLimit - 1) (.arr (m.body.map Item.toJson)) :=
      fits_arr (List.forall_mem_map.mpr (fits_readModule hread))
    have hname : Fits (depthLimit - 1) (.ofOption .str m.filename) :=
      .of_depth_le (writable_ofOption fun s _ => writable_str s) (by simp [depth_filename])
    refine fits_obj ?_
    simpa using ⟨hname, hbody⟩
  · cases h

/-- A call without arguments lies as deep as the reader goes. -/
def Module.HasDeepestCall (m : Module) : Prop :=
  ∃ line func, At (Expr.call line func []).toJson (depthLimit - 1) m.toJson

theorem Module.hasDeepestCall_iff {m : Module} (h : Fits depthLimit m.toJson) :
    m.HasDeepestCall ↔ depthLimit < m.toJson.depth := by
  constructor
  · rintro ⟨line, func, hat⟩
    have hdepth := hat.depth_le
    rw [depth_call_nil, depthLimit] at hdepth
    rw [depthLimit]
    omega
  · intro hlt
    obtain ⟨-, hle | ⟨k, line, func, hk, hat⟩⟩ := h
    · omega
    · cases hk
      exact ⟨line, func, hat⟩

theorem Module.writable_items {m : Module} (h : m.toJson.Writable) :
    ∀ i ∈ m.body, i.toJson.Writable := by
  have hbody : (Json.arr (m.body.map Item.toJson)).Writable :=
    writable_obj.mp h ("body", _) (by simp)
  exact List.forall_mem_map.mp (writable_arr.mp hbody)

/-- A loaded module is loaded from its saved text exactly as it was, unless a call without arguments lies
as deep as the reader goes. -/
theorem Module.parse_save_of_parse {text : String} {m : Module} (h : Module.parse text = .ok m) :
    (Module.parse m.save = .ok m ↔ ¬ m.HasDeepestCall) ∧
      (Module.parse m.save = .error .malformed ↔ m.HasDeepestCall) ∧
      ∀ m', Module.parse m.save = .ok m' → m' = m ∧ m'.save = m.save := by
  have hfits := Module.fits_of_parse h
  rw [Module.hasDeepestCall_iff hfits, Module.parse_save (Module.writable_items hfits.1)]
  by_cases hdepth : m.toJson.depth ≤ depthLimit
  · rw [if_pos hdepth]
    refine ⟨iff_of_true rfl (Nat.not_lt.mpr hdepth),
      iff_of_false (by simp) (Nat.not_lt.mpr hdepth), ?_⟩
    rintro m' h'
    cases h'
    exact ⟨rfl, rfl⟩
  · rw [if_neg hdepth]
    refine ⟨iff_of_false (by simp) (not_not.mpr (Nat.lt_of_not_le hdepth)),
      iff_of_true rfl (Nat.lt_of_not_le hdepth), ?_⟩
    rintro m' h'
    cases h'

/-- A call without arguments, subscripted, and calls around it. -/
def nestedCall : Nat → Expr
  | 0 => .subscript 0 (.call 0 "f" []) (.name 0 "i")
  | n + 1 => .call 0 "f" [nestedCall n]

/-- The same without the fields that may be left out. -/
def nestedCallJson : Nat → Json
  | 0 => .obj [("type", .str "Subscript"),
    ("value", .obj [("type", .str "Call"), ("func", .str "f")]),
    ("index", .obj [("type", .str "Name"), ("id", .str "i")])]
  | n + 1 => .obj [("type", .str "Call"), ("func", .str "f"), ("args", .arr [nestedCallJson n])]

def nestedCallModule (n : Nat) : Module where
  filename := none
  body := [.function ⟨"g", [], none, [.ret 0 (some (nestedCall n))], 0⟩]

def nestedCallItemJson (n : Nat) : Json :=
  .obj [("type", .str "FunctionDef"), ("name", .str "g"),
    ("body", .arr [.obj [("type", .str "Return"), ("value", nestedCallJson n)]])]

def nestedCallText (n : Nat) : String :=
  String.ofList (((nestedCallModule n).toJsonWith fun _ => nestedCallItemJson n).write .empty 0)

theorem ofJson?_nestedCallJson (n : Nat) : Expr.ofJson? (nestedCallJson n) = some (nestedCall n) := by
  induction n with
  | zero => rfl
  | succ n ih =>
    have hargs : list? Expr.ofJson? (.arr [nestedCallJson n]) = some [nestedCall n] := by
      simp [list?, arr?, ih]
    rw [nestedCallJson, nestedCall, Expr.ofJson?_eq_some]
    simp [IsNode, lineOf?, caseOf?, exprCases, Expr.line, Expr.tag, Expr.FieldsIn, hargs]

theorem writable_nestedCallJson (n : Nat) : (nestedCallJson n).Writable := by
  induction n with
  | zero => simp [nestedCallJson, writable_obj, writable_str]
  | succ n ih => simp [nestedCallJson, writable_obj, writable_arr, writable_str, ih]

theorem depth_nestedCallJson (n : Nat) : (nestedCallJson n).depth = 2 * n + 2 := by
  induction n with
  | zero => rfl
  | succ n ih =>
    simp only [nestedCallJson, Json.depth, depthOf, depthOfMembers, ih]
    omega

theorem at_nestedCall (n : Nat) :
    At (Expr.call 0 "f" []).toJson (2 * n + 1) (nestedCall n).toJson := by
  induction n with
  | zero => exact .part (by simp [nestedCall, Expr.toJson, node, Json.parts]) .root
  | succ n ih =>
    have hargs : At (Expr.call 0 "f" []).toJson (2 * n + 2) (.arr [(nestedCall n).toJson]) :=
      .part (by simp [Json.parts]) ih
    exact .part (by simp [nestedCall, Expr.toJson, node, Json.parts, exprsToJson]) hargs

theorem at_nestedCallModule (n : Nat) :
    At (Expr.call 0 "f" []).toJson (2 * n + 6) (nestedCallModule n).toJson := by
  have hret : At (Expr.call 0 "f" []).toJson (2 * n + 2)
      (Stmt.ret 0 (some (nestedCall n))).toJson :=
    .part (by simp [Stmt.toJson, node, Json.parts, ofOption]) (at_nestedCall n)
  have hblock : At (Expr.call 0 "f" []).toJson (2 * n + 3)
      (.arr (stmtsToJson [.ret 0 (some (nestedCall n))])) :=
    .part (by simp [Json.parts, stmtsToJson]) hret
  have hitem : At (Expr.call 0 "f" []).toJson (2 * n + 4)
      (Item.function ⟨"g", [], none, [.ret 0 (some (nestedCall n))], 0⟩).toJson :=
    .part (by simp [Item.toJson, Function.members, Json.parts]) hblock
  have hitems : At (Expr.call 0 "f" []).toJson (2 * n + 5)
      (.arr ((nestedCallModule n).body.map Item.toJson)) :=
    .part (by simp [nestedCallModule, Json.parts]) hitem
  exact .part (by simp [Module.toJson, Json.parts]) hitems

theorem isForm_nestedCall (n : Nat) : ∀ i ∈ (nestedCallModule n).body,
    i.IsForm (nestedCallItemJson n) := by
  have hret : list? Stmt.ofJson? (.arr [.obj [("type", .str "Return"), ("value", nestedCallJson n)]]) =
      some [.ret 0 (some (nestedCall n))] := by
    have hvalue : nullable? Expr.ofJson? (nestedCallJson n) = some (some (nestedCall n)) := by
      rw [nullable?.eq_2 _ _ (by cases n <;> simp [nestedCallJson]), ofJson?_nestedCallJson]
      rfl
    have hstmt : Stmt.ofJson? (.obj [("type", .str "Return"), ("value", nestedCallJson n)]) =
        some (.ret 0 (some (nestedCall n))) := by
      rw [Stmt.ofJson?_eq_some]
      simp [IsNode, lineOf?, caseOf?, stmtCases, Stmt.line, Stmt.tag, Stmt.FieldsIn, hvalue]
    simp [list?, arr?, hstmt]
  rw [nestedCallModule, List.forall_mem_singleton]
  refine ⟨_, rfl, by simp, ?_, ?_⟩
  · simp [nestedCallItemJson, writable_obj, writable_arr, writable_str, writable_nestedCallJson]
  · rw [nestedCallItemJson, Item.ofJson?_obj_eq_some]
    refine ⟨by simp [Item.tag], ?_⟩
    constructor
    all_goals simp [lineOf?, hret]

theorem parse_nestedCallText {n : Nat} (hn : n ≤ 60) :
    Module.parse (nestedCallText n) = .ok (nestedCallModule n) := by
  rw [nestedCallText, Module.parse_write Blanks.blank_empty (isForm_nestedCall n), if_pos]
  simp only [Module.toJsonWith, Module.parts, nestedCallModule, nestedCallItemJson, Part.toJson,
    ofOption, List.map_cons, List.map_nil, Prod.map, Json.depth, depthOf, depthOfMembers,
    depth_nestedCallJson, depthLimit]
  omega

/-- Two calls without arguments, one of them as deep as the reader goes. -/
theorem Module.parse_save_of_parse_nestedCall :
    (Module.parse (nestedCallText 0) = .ok (nestedCallModule 0) ∧
      Module.parse (nestedCallModule 0).save = .ok (nestedCallModule 0)) ∧
    Module.parse (nestedCallText 60) = .ok (nestedCallModule 60) ∧
      Module.parse (nestedCallModule 60).save = .error .malformed := by
  have hshallow := parse_nestedCallText (Nat.zero_le 60)
  have hdeep := parse_nestedCallText (Nat.le_refl 60)
  refine ⟨⟨hshallow, (Module.parse_save_of_parse hshallow).1.mpr ?_⟩, hdeep,
    (Module.parse_save_of_parse hdeep).2.1.mpr ⟨0, "f", at_nestedCallModule 60⟩⟩
  rw [Module.hasDeepestCall_iff (Module.fits_of_parse hshallow)]
  decide

end AnnotatedToC.Source
