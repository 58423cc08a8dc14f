import AnnotatedToC.CommandLine.Run
import AnnotatedToC.Proofs.Functionwise
import AnnotatedToC.Proofs.SavedModules

/-!
# What a run leaves behind

A run stops before anything is written, or it writes what could be compiled and reports the rest. Which of
the two it does is said in terms of what the system answers: the file that is read, the checker that is
started and the file that is written.
-/
namespace AnnotatedToC

/-! ## Words -/

namespace Text

def IsBlank (s : String) : Prop := ∀ c ∈ s.toList, isWhiteSpace c = true

theorem wordsFrom_eq_nil {current cs : List Char} :
    wordsFrom current cs = [] ↔ current = [] ∧ ∀ c ∈ cs, isWhiteSpace c = true := by
  induction cs generalizing current with
  | nil => simp [wordsFrom]
  | cons c cs ih =>
    rw [wordsFrom, List.forall_mem_cons]
    by_cases hc : isWhiteSpace c = true
    · by_cases hcurrent : current = []
      · simp [hc, hcurrent, ih]
      · simp [hc, hcurrent]
    · simp [hc, ih]

theorem words_eq_nil {s : String} : words s = [] ↔ IsBlank s := by
  rw [words, wordsFrom_eq_nil]
  exact and_iff_right rfl

end Text

/-! ## What the system answers -/

/-- The functions of a module that can be lowered, in their order. -/
def Source.Module.trees (m : Source.Module) : List Target.Function :=
  m.functions.filterMap fun f => (lowerFunction f).toOption

/-- One line for each function that cannot be lowered, in their order. -/
def Source.Module.errorLines (m : Source.Module) : List String :=
  m.functions.filterMap fun f =>
    match lowerFunction f with
    | .ok _ => none
    | .error e => some ("error: " ++ (Diagnostic.mk f.name m.filename e).message)

/-- The lines about functions that cannot be lowered, and how many they are if there are any. -/
def Source.Module.reportLines (m : Source.Module) : List String :=
  let failed := m.errorLines.length
  let total := m.functions.length
  m.errorLines ++ if failed = 0 then []
    else ["warning: " ++ toString failed ++ " of " ++ toString total ++ " function(s) not translated"]

namespace Options

variable {σ : Type} (o : Options) (host : Host σ)

/-- The C text of what can be lowered, or its trees as JSON. -/
def contentOf (m : Source.Module) : String :=
  if o.dumpTree then (Json.arr (m.trees.map Target.Function.toJson)).pretty ++ "\n"
  else String.join (m.trees.map (·.render o.style))

/-- The input can be read and holds a module. -/
def Loads (s : σ) (m : Source.Module) : Prop :=
  ∃ bytes text, host.read s o.input = .ok bytes ∧ String.fromUTF8? bytes = some text ∧
    Source.Module.parse text = .ok m

/-- The answer to starting the checker on a file. -/
def checkerAnswer (s : σ) (source : String) : Answer CheckerExit × σ :=
  host.check s ((Text.words o.checker).headD "") ((Text.words o.checker).tail ++ [source])

/-- The checker is started on the source of a module and ends in this way. -/
structure Checks (s : σ) (m : Source.Module) (source : String) (ended : CheckerExit) (s' : σ) : Prop where
  sourcePath : o.sourcePath? m = some source
  notBlank : ¬ Text.IsBlank o.checker
  answer : o.checkerAnswer host s source = (.ok ended, s')

/-- A module is loaded, and checked if that is asked for, and this leaves the system in some state. -/
structure Ready (s : σ) (m : Source.Module) (s' : σ) : Prop where
  loads : o.Loads host s m
  unchecked : o.check = false → s' = s
  checked : o.check = true → ∃ source stdout, o.Checks host s m source ⟨true, stdout⟩ s'

/-- A module is loaded, and the checker finds something in it. -/
structure Refused (s : σ) (source : String) (stdout : List UInt8) (s' : σ) : Prop where
  check : o.check = true
  refused : ∃ m, o.Loads host s m ∧ o.Checks host s m source ⟨false, stdout⟩ s'

/-- The checker is called on a file, whether or not it starts. -/
structure Calls (s : σ) (source : String) : Prop where
  check : o.check = true
  notBlank : ¬ Text.IsBlank o.checker
  loaded : ∃ m, o.Loads host s m ∧ o.sourcePath? m = some source

def callEvent (source : String) : LogEvent := .checking ((Text.words o.checker).headD "") source

/-- The event of the call, if it comes to a call. -/
structure CallEvents (s : σ) (events : List LogEvent) : Prop where
  called {source : String} : o.Calls host s source → events = [o.callEvent source]
  uncalled : (¬ ∃ source, o.Calls host s source) → events = []

/-- One failure is reported, nothing is written and nothing but the report of a checker is printed. No
more than the call of the checker is logged before. -/
structure Stops (s : σ) (out : Outcome σ) : Prop where
  code : out.code = Run.failure
  written : out.written = []
  refused {source : String} {stdout : List UInt8} {s' : σ} : o.Refused host s source stdout s' →
    out.stdout = String.ofList (Text.decode stdout) ∧
      out.notices = o.logged [o.callEvent source] ++ [.typeCheckFailed source]
  silent : (¬ ∃ source stdout s', o.Refused host s source stdout s') →
    out.stdout = "" ∧ ∃ events f, o.CallEvents host s events ∧
      out.notices = o.logged events ++ [.failure f]

/-- The content is printed, or it can be written to the output. -/
def Writes (s : σ) (m : Source.Module) : Prop :=
  ∀ path ∈ o.output, (host.write s path (o.contentOf m)).1 = .ok ()

/-- The events of a run that comes to the emission. -/
def events (m : Source.Module) : List LogEvent :=
  (if o.check then (o.sourcePath? m).toList.map o.callEvent else []) ++ compileEvents o.style m

/-- The content goes to one place, and what is missing in it is reported unless it gets lost. If events
are logged, they are logged before. -/
structure Emits (s : σ) (m : Source.Module) (out : Outcome σ) : Prop where
  printed : o.output = none → out.stdout = o.contentOf m ∧ out.written = [] ∧ out.state = s
  kept {path : String} {s' : σ} : o.output = some path →
    host.write s path (o.contentOf m) = (.ok (), s') →
    out.stdout = "" ∧ out.written = [(path, o.contentOf m)] ∧ out.state = s'
  lost {path cause : String} {s' : σ} : o.output = some path →
    host.write s path (o.contentOf m) = (.error cause, s') →
    out.stdout = "" ∧ out.written = [] ∧ out.state = s' ∧
      out.notices = o.logged (o.events m) ++ [.failure (.unwritable path cause)]
  reported : o.Writes host s m → ∃ reports, out.notices = o.logged (o.events m) ++ reports ∧
    ∀ w, reports.map (Notice.line w) = m.reportLines

end Options

/-! ## Compilations -/

section Compilation

variable (style : LayoutStyle) (m : Source.Module)

theorem filterMap_tree?_lowerModule :
    (lowerModule none m).filterMap LoweredFunction.tree? = m.trees := by
  rw [lowerModule_eq_map, List.filterMap_map, Source.Module.trees]
  congr 1
  funext f
  cases h : lowerFunction f with
  | ok g => exact LoweredFunction.tree?_of_ok (LoweredFunction.result_of_ok _ h)
  | error e => exact LoweredFunction.tree?_of_error (LoweredFunction.result_of_error _ h)

theorem content_compileModule (o : Options) :
    (compileModule o.style m).content o.dumpTree = o.contentOf m := by
  unfold Compilation.content Options.contentOf Compilation.text
  rw [functions_compileModule, filterMap_tree?_lowerModule, List.map_map, List.map_map]
  rfl

theorem lines_diagnostics_compileModule :
    ((compileModule style m).diagnostics.map fun d => "error: " ++ d.message) = m.errorLines := by
  rw [diagnostics_compileModule, lowerModule_eq_map, List.filterMap_map, List.map_filterMap,
    Source.Module.errorLines]
  congr 1
  funext f
  cases h : lowerFunction f with
  | ok g =>
    rw [Function.comp_apply, LoweredFunction.diagnostic?_of_ok (LoweredFunction.result_of_ok _ h)]
    rfl
  | error e =>
    rw [Function.comp_apply,
      LoweredFunction.diagnostic?_of_error (LoweredFunction.result_of_error _ h)]
    rfl

theorem length_diagnostics_compileModule :
    (compileModule style m).diagnostics.length = m.errorLines.length := by
  rw [← lines_diagnostics_compileModule style m, List.length_map]

/-- Every function is compiled or reported. -/
theorem length_add_length_compileModule :
    (compileModule style m).diagnostics.length + (compileModule style m).functions.length =
      m.functions.length := by
  have hcompiled := (forall₂_compiled style (Option.or none m.filename) m.functions).length_eq
  have hdiagnostics := (forall₂_diagnostics (Option.or none m.filename) m.functions).length_eq
  rw [← lowerModule_eq_map, ← functions_compileModule] at hcompiled
  rw [← lowerModule_eq_map, ← diagnostics_compileModule style] at hdiagnostics
  have htotal := m.functions.length_eq_length_filter_add Source.Function.lowers
  omega

theorem lines_notices_compileModule (w : Wording) :
    (compileModule style m).notices.map (Notice.line w) = m.reportLines := by
  have hlines : (compileModule style m).diagnostics.map (Notice.line w ∘ .diagnostic) = m.errorLines :=
    lines_diagnostics_compileModule style m
  have hlength := length_diagnostics_compileModule style m
  have htotal := length_add_length_compileModule style m
  rw [Compilation.notices, List.map_append, List.map_map, hlines, Source.Module.reportLines, htotal,
    Compilation.isClean]
  congr 1
  cases h : (compileModule style m).diagnostics with
  | nil =>
    rw [h, List.length_nil] at hlength
    rw [← hlength]
    rfl
  | cons d ds =>
    rw [h, List.length_cons] at hlength
    rw [List.length_cons, hlength, if_neg (by simp), if_neg (by omega)]
    rfl

theorem isClean_compileModule :
    (compileModule style m).isClean = true ↔ ∀ f ∈ m.functions, ∃ g, lowerFunction f = .ok g := by
  rw [Compilation.isClean, List.isEmpty_iff, ← List.length_eq_zero_iff,
    length_diagnostics_compileModule, List.length_eq_zero_iff, Source.Module.errorLines,
    List.filterMap_eq_nil_iff]
  refine forall₂_congr fun f _ => ?_
  cases lowerFunction f with
  | ok g => simp
  | error e => simp

end Compilation

/-! ## Outcomes -/

section Outcome

variable {σ : Type} {host : Host σ} {o : Options} {s s' : σ} {m : Source.Module}

/-- The outcome with notices in front of its own. -/
def Outcome.after (notices : List Notice) (out : Outcome σ) : Outcome σ :=
  { out with notices := notices ++ out.notices }

theorem Outcome.after_nil (out : Outcome σ) : out.after [] = out := rfl

theorem Outcome.after_after (out : Outcome σ) (notices notices' : List Notice) :
    (out.after notices').after notices = out.after (notices ++ notices') := by
  simp [after]

theorem Run.outcome_reportAll (notices : List Notice) (next : Run) :
    (Run.reportAll notices next).outcome host s = (next.outcome host s).after notices := by
  induction notices with
  | nil => rfl
  | cons notice notices ih =>
    change { (Run.reportAll notices next).outcome host s with
      notices := notice :: ((Run.reportAll notices next).outcome host s).notices } = _
    rw [ih]
    rfl

theorem Compilation.outcome_conclude (t : Compilation) : t.conclude.outcome host s =
    ⟨if t.isClean then Run.success else Run.failure, "", t.notices, [], s⟩ := by
  rw [conclude, Run.outcome_reportAll]
  simp [Run.outcome, Outcome.after]

namespace Options

theorem logged_nil : o.logged [] = [] := by
  unfold logged
  split <;> rfl

theorem logged_append (es es' : List LogEvent) : o.logged (es ++ es') = o.logged es ++ o.logged es' := by
  unfold logged
  split
  · exact List.map_append
  · rfl

theorem load_eq_ok : o.load (host.read s o.input) = .ok m ↔ o.Loads host s m := by
  unfold load Loads
  cases host.read s o.input with
  | error cause => simp
  | ok bytes =>
    cases hbytes : String.fromUTF8? bytes with
    | none => simp [hbytes]
    | some text =>
      cases htext : Source.Module.parse text with
      | error fault => simp [hbytes, htext]
      | ok m' => simp [hbytes, htext]

/-- An input holds one module. -/
theorem Loads.unique {m' : Source.Module} (h : o.Loads host s m) (h' : o.Loads host s m') : m = m' := by
  rw [← load_eq_ok] at h h'
  exact Except.ok.inj (h.symm.trans h')

/-! ### Up to the emission -/

theorem outcome_run_of_loads (h : o.Loads host s m) :
    o.run.outcome host s = (o.checked m (o.emit m)).outcome host s := by
  simp only [run, Run.outcome, load_eq_ok.2 h]

/-- The program of a checker that is not blank, and what it is called with. -/
theorem exists_words_of_not_isBlank (h : ¬ Text.IsBlank o.checker) :
    ∃ program arguments, Text.words o.checker = program :: arguments ∧
      (∀ source, o.callEvent source = .checking program source) ∧
      ∀ (host : Host σ) s source,
        o.checkerAnswer host s source = host.check s program (arguments ++ [source]) := by
  cases hwords : Text.words o.checker with
  | nil => exact absurd (Text.words_eq_nil.1 hwords) h
  | cons program arguments =>
    refine ⟨program, arguments, rfl, fun source => ?_, fun host s source => ?_⟩
    · rw [callEvent, hwords]
      rfl
    · rw [checkerAnswer, hwords]
      rfl

theorem outcome_checked_of_calls {source : String} (next : Run) (hcheck : o.check = true)
    (hsource : o.sourcePath? m = some source) (hblank : ¬ Text.IsBlank o.checker) :
    ∃ program, ∀ (host : Host σ) s, (o.checked m next).outcome host s =
      ((afterCheck program source next (o.checkerAnswer host s source).1).outcome host
        (o.checkerAnswer host s source).2).after (o.logged [o.callEvent source]) := by
  obtain ⟨program, arguments, hwords, hevent, hanswer⟩ := exists_words_of_not_isBlank (σ := σ) hblank
  refine ⟨program, fun host s => ?_⟩
  simp only [checked, hcheck, hsource, hwords, Bool.not_true, Bool.false_eq_true, if_false,
    Run.outcome_reportAll, hevent, hanswer]
  rfl

theorem outcome_checked_of_checks {next : Run} {source : String} {ended : CheckerExit}
    (hcheck : o.check = true) (h : o.Checks host s m source ended s') :
    (o.checked m next).outcome host s =
      Outcome.after (o.logged [o.callEvent source])
        (if ended.success then next.outcome host s'
        else ⟨Run.failure, String.ofList (Text.decode ended.stdout), [.typeCheckFailed source], [],
          s'⟩) := by
  obtain ⟨program, hend⟩ := outcome_checked_of_calls (σ := σ) next hcheck h.sourcePath h.notBlank
  rw [hend, h.answer, afterCheck]
  -- the run goes on in the state that the checker left
  by_cases hsuccess : ended.success = true
  · rw [if_pos hsuccess, if_pos hsuccess]
  · rw [if_neg hsuccess, if_neg hsuccess]
    simp [Run.outcome]

theorem outcome_run_of_refused {source : String} {stdout : List UInt8}
    (h : o.Refused host s source stdout s') :
    o.run.outcome host s =
      ⟨Run.failure, String.ofList (Text.decode stdout),
        o.logged [o.callEvent source] ++ [.typeCheckFailed source], [], s'⟩ := by
  obtain ⟨m, hloads, hchecks⟩ := h.refused
  rw [outcome_run_of_loads hloads, outcome_checked_of_checks h.check hchecks,
    if_neg Bool.false_ne_true, Outcome.after]

/-- Once a module is loaded, it is known on which file the checker is called, if it is called. -/
theorem Loads.calls_iff {source : String} (hloads : o.Loads host s m) (hcheck : o.check = true) :
    o.Calls host s source ↔ o.sourcePath? m = some source ∧ ¬ Text.IsBlank o.checker := by
  constructor
  · rintro ⟨-, hblank, m', hloads', hsource⟩
    rw [hloads.unique hloads']
    exact ⟨hsource, hblank⟩
  · rintro ⟨hsource, hblank⟩
    exact ⟨hcheck, hblank, m, hloads, hsource⟩

theorem Calls.unique {source source' : String} (h : o.Calls host s source)
    (h' : o.Calls host s source') : source = source' := by
  obtain ⟨m, hloads, hsource⟩ := h.loaded
  obtain ⟨hsource', -⟩ := (hloads.calls_iff h.check).1 h'
  exact Option.some.inj (hsource.symm.trans hsource')

theorem Calls.callEvents {source : String} (h : o.Calls host s source) :
    o.CallEvents host s [o.callEvent source] where
  called h' := by rw [h.unique h']
  uncalled hnone := absurd ⟨source, h⟩ hnone

theorem callEvents_nil (h : ¬ ∃ source, o.Calls host s source) : o.CallEvents host s [] where
  called h' := absurd ⟨_, h'⟩ h
  uncalled _ := rfl

theorem outcome_checked_of_not_calls (next : Run) (hcheck : o.check = true)
    (h : ∀ source, o.sourcePath? m = some source → Text.IsBlank o.checker) :
    ∃ f, ∀ (host : Host σ) s,
      (o.checked m next).outcome host s = ⟨Run.failure, "", [.failure f], [], s⟩ := by
  cases hsource : o.sourcePath? m with
  | none =>
    refine ⟨.noSource, fun host s => ?_⟩
    simp [checked, hcheck, hsource, Run.outcome, Run.fail]
  | some source =>
    have hwords : Text.words o.checker = [] := Text.words_eq_nil.2 (h source hsource)
    refine ⟨.emptyChecker, fun host s => ?_⟩
    simp [checked, hcheck, hsource, hwords, Run.outcome, Run.fail]

/-- A checker that does not come to an end is a failure, whatever writing does. -/
theorem outcome_checked_of_not_checks (next : Run) (hloads : o.Loads host s m) (hcheck : o.check = true)
    (h : ¬ ∃ source ended s', o.Checks host s m source ended s') :
    ∃ events f s', o.CallEvents host s events ∧
      ∀ w, (o.checked m next).outcome { host with write := w } s =
        ⟨Run.failure, "", o.logged events ++ [.failure f], [], s'⟩ := by
  by_cases hcalls : ∃ source, o.Calls host s source
  · obtain ⟨source, hcall⟩ := hcalls
    obtain ⟨hsource, hblank⟩ := (hloads.calls_iff hcheck).1 hcall
    obtain ⟨program, hend⟩ := outcome_checked_of_calls (σ := σ) next hcheck hsource hblank
    rcases hanswer : o.checkerAnswer host s source with ⟨_ | ended, s'⟩
    case error cause =>
      refine ⟨_, .checkerNotStarted program cause, s', hcall.callEvents, fun w => ?_⟩
      have hanswer' : o.checkerAnswer { host with write := w } s source = (.error cause, s') := hanswer
      rw [hend, hanswer']
      simp [afterCheck, Run.fail, Run.outcome, Outcome.after]
    case ok => exact absurd ⟨source, ended, s', hsource, hblank, hanswer⟩ h
  · have hblank (source) (hsource : o.sourcePath? m = some source) : Text.IsBlank o.checker :=
      by_contra fun hblank => hcalls ⟨source, (hloads.calls_iff hcheck).2 ⟨hsource, hblank⟩⟩
    obtain ⟨f, hend⟩ := outcome_checked_of_not_calls (σ := σ) next hcheck hblank
    refine ⟨[], f, s, callEvents_nil hcalls, fun w => ?_⟩
    rw [hend, logged_nil, List.nil_append]

/-- A run that neither gets to the emission nor is refused reports one failure, whatever writing does. -/
theorem outcome_run_of_stopped (hready : ¬ ∃ m s', o.Ready host s m s')
    (hrefused : ¬ ∃ source stdout s', o.Refused host s source stdout s') :
    ∃ events f s', o.CallEvents host s events ∧ ∀ w, o.run.outcome { host with write := w } s =
      ⟨Run.failure, "", o.logged events ++ [.failure f], [], s'⟩ := by
  cases hload : o.load (host.read s o.input) with
  | error f =>
    refine ⟨[], f, s, callEvents_nil ?_, fun w => ?_⟩
    · rintro ⟨source, hcall⟩
      obtain ⟨m, hloads, -⟩ := hcall.loaded
      rw [load_eq_ok.2 hloads] at hload
      cases hload
    · simp only [run, Run.outcome, hload, Run.fail, logged_nil, List.nil_append]
  | ok m =>
    have hloads := load_eq_ok.1 hload
    cases hcheck : o.check with
    | false =>
      have hskipped : o.Ready host s m s := ⟨hloads, fun _ => rfl, by simp [hcheck]⟩
      exact absurd ⟨m, s, hskipped⟩ hready
    | true =>
      by_cases hchecks : ∃ source ended s', o.Checks host s m source ended s'
      · obtain ⟨source, ⟨success, stdout⟩, s', hchecks⟩ := hchecks
        cases success with
        | false => exact absurd ⟨source, stdout, s', hcheck, m, hloads, hchecks⟩ hrefused
        | true =>
          have hpassed : o.Ready host s m s' :=
            ⟨hloads, by simp [hcheck], fun _ => ⟨source, stdout, hchecks⟩⟩
          exact absurd ⟨m, s', hpassed⟩ hready
      · obtain ⟨events, f, s', hevents, hend⟩ :=
          outcome_checked_of_not_checks (o.emit m) hloads hcheck hchecks
        refine ⟨events, f, s', hevents, fun w => ?_⟩
        have hloads' : o.Loads { host with write := w } s m := hloads
        rw [outcome_run_of_loads hloads', hend w]

theorem stops_run (hready : ¬ ∃ m s', o.Ready host s m s') :
    o.Stops host s (o.run.outcome host s) := by
  by_cases hrefused : ∃ source stdout s', o.Refused host s source stdout s'
  · obtain ⟨source, stdout, s', h⟩ := hrefused
    have hend := outcome_run_of_refused h
    refine ⟨by rw [hend], by rw [hend], fun h' => ?_, fun hnone => absurd ⟨source, stdout, s', h⟩ hnone⟩
    rw [outcome_run_of_refused h']
    exact ⟨rfl, rfl⟩
  · obtain ⟨events, f, s', hevents, hend⟩ := outcome_run_of_stopped hready hrefused
    -- the host is itself with its own way of writing
    have hend := hend host.write
    refine ⟨by rw [hend], by rw [hend], fun h => absurd ⟨_, _, _, h⟩ hrefused, fun _ => ?_⟩
    rw [hend]
    exact ⟨rfl, events, f, hevents, rfl⟩

/-- A run that does not get to the emission does not write at all. -/
theorem outcome_run_with_write (hready : ¬ ∃ m s', o.Ready host s m s')
    (w : σ → String → String → Answer Unit × σ) :
    o.run.outcome { host with write := w } s = o.run.outcome host s := by
  by_cases hrefused : ∃ source stdout s', o.Refused host s source stdout s'
  · obtain ⟨source, stdout, s', h⟩ := hrefused
    obtain ⟨m, hloads, hchecks⟩ := h.refused
    have h' : o.Refused { host with write := w } s source stdout s' :=
      ⟨h.check, m, hloads, hchecks.sourcePath, hchecks.notBlank, hchecks.answer⟩
    rw [outcome_run_of_refused h, outcome_run_of_refused h']
  · obtain ⟨events, f, s', -, hend⟩ := outcome_run_of_stopped hready hrefused
    exact (hend w).trans (hend host.write).symm

/-! ### The emission -/

/-- A run that comes to the emission logs what it did, and then delivers what could be compiled. -/
theorem outcome_run_of_ready (h : o.Ready host s m s') : o.run.outcome host s =
    ((o.deliver (o.contentOf m) (compileModule o.style m)).outcome host s').after
      (o.logged (o.events m)) := by
  have hemit : (o.emit m).outcome host s' =
      ((o.deliver (o.contentOf m) (compileModule o.style m)).outcome host s').after
        (o.logged (compileEvents o.style m)) := by
    rw [emit, Run.outcome_reportAll, content_compileModule]
  rw [outcome_run_of_loads h.loads, events, logged_append, ← Outcome.after_after, ← hemit]
  cases hcheck : o.check with
  | false =>
    rw [h.unchecked hcheck, if_neg Bool.false_ne_true, logged_nil, Outcome.after_nil]
    simp only [checked, hcheck, Bool.not_false, if_true]
  | true =>
    obtain ⟨source, stdout, hchecks⟩ := h.checked hcheck
    rw [outcome_checked_of_checks hcheck hchecks, hchecks.sourcePath, if_pos rfl, if_pos rfl]
    rfl

section Deliver

variable {content : String} {t : Compilation}

theorem outcome_deliver_stdout (houtput : o.output = none) :
    (o.deliver content t).outcome host s =
      ⟨if t.isClean then Run.success else Run.failure, content, t.notices, [], s⟩ := by
  simp [deliver, houtput, Run.outcome, Compilation.outcome_conclude]

theorem outcome_deliver_file {path : String} (houtput : o.output = some path)
    (hwrite : host.write s path content = (.ok (), s')) :
    (o.deliver content t).outcome host s =
      ⟨if t.isClean then Run.success else Run.failure, "", t.notices, [(path, content)], s'⟩ := by
  simp [deliver, houtput, Run.outcome, Compilation.outcome_conclude, hwrite]

theorem outcome_deliver_unwritable {path cause : String} (houtput : o.output = some path)
    (hwrite : host.write s path content = (.error cause, s')) :
    (o.deliver content t).outcome host s =
      ⟨Run.failure, "", [.failure (.unwritable path cause)], [], s'⟩ := by
  simp [deliver, houtput, Run.outcome, hwrite, Run.fail]

end Deliver

theorem code_run_eq_success (h : o.Ready host s m s') : (o.run.outcome host s).code = Run.success ↔
    o.Writes host s' m ∧ ∀ f ∈ m.functions, ∃ g, lowerFunction f = .ok g := by
  have hcode : (if (compileModule o.style m).isClean then Run.success else Run.failure) = Run.success ↔
      ∀ f ∈ m.functions, ∃ g, lowerFunction f = .ok g := by
    rw [← isClean_compileModule o.style]
    exact ite_eq_left_iff.trans (by simp [Run.success, Run.failure])
  unfold Writes
  rw [outcome_run_of_ready h, Outcome.after]
  cases houtput : o.output with
  | none =>
    rw [outcome_deliver_stdout houtput, hcode]
    simp
  | some path =>
    rcases hwrite : host.write s' path (o.contentOf m) with ⟨_ | _, s''⟩
    · rw [outcome_deliver_unwritable houtput hwrite]
      simp [hwrite, Run.success, Run.failure]
    · rw [outcome_deliver_file houtput hwrite, hcode]
      simp [hwrite]

theorem emits_run (h : o.Ready host s m s') : o.Emits host s' m (o.run.outcome host s) := by
  rw [outcome_run_of_ready h, Outcome.after]
  constructor
  case printed =>
    intro houtput
    rw [outcome_deliver_stdout houtput]
    exact ⟨rfl, rfl, rfl⟩
  case kept =>
    intro path s'' houtput hwrite
    rw [outcome_deliver_file houtput hwrite]
    exact ⟨rfl, rfl, rfl⟩
  case lost =>
    intro path cause s'' houtput hwrite
    rw [outcome_deliver_unwritable houtput hwrite]
    exact ⟨rfl, rfl, rfl, rfl⟩
  case reported =>
    intro hwrites
    refine ⟨(compileModule o.style m).notices, ?_, lines_notices_compileModule o.style m⟩
    cases houtput : o.output with
    | none => rw [outcome_deliver_stdout houtput]
    | some path =>
      have hwrite : host.write s' path (o.contentOf m) =
          (.ok (), (host.write s' path (o.contentOf m)).2) :=
        Prod.ext (hwrites path houtput) rfl
      rw [outcome_deliver_file houtput hwrite]

end Options

end Outcome

theorem Text.fromUTF8?_toUTF8 (t : String) : String.fromUTF8? t.toUTF8 = some t := by
  unfold String.fromUTF8?
  rw [String.toUTF8_eq_toByteArray, dif_pos t.isValidUTF8]
  rfl

/-- A host where every file holds the same text, every checker passes and every write succeeds. Its state
is what was asked of it. -/
def Host.recording (text : String) : Host (List String) where
  read _ _ := .ok text.toUTF8
  check s program arguments := (.ok ⟨true, []⟩, s ++ program :: arguments)
  write s path text := (.ok (), s ++ [path, text])

/-- A function that cannot be lowered, an import and a function that can. -/
def mixedModule : Source.Module where
  filename := some "m.py"
  body := [.function ⟨"bad", [], none, [.unsupported 2 "While"], 1⟩, .other "Import" 3,
    .function ⟨"good", [], none, [.ret 5 none], 4⟩]

theorem parse_save_mixedModule : Source.Module.parse mixedModule.save = .ok mixedModule := by
  have hwritable : ∀ i ∈ mixedModule.body, i.toJson.Writable := by
    intro i hi
    refine Source.Item.writable_toJson fun f hf d hd => ?_
    have hd : d ∈ mixedModule.floats :=
      List.mem_flatMap.mpr ⟨f, Source.Module.mem_functions (hf ▸ hi), hd⟩
    exact absurd hd List.not_mem_nil
  rw [Source.Module.parse_save hwritable, if_pos (by decide)]

/-- A checker with an option of its own, a file for the output, and a log. -/
def checkedArguments : List String := ["-cv", "--checker=mypy  --strict", "d/m.json", "-oout.c"]

def checkedOptions : Options where
  input := "d/m.json"
  check := true
  checker := "mypy  --strict"
  source := none
  output := some "out.c"
  style := ⟨.spaces 2, true⟩
  dumpTree := false
  verbose := true

theorem parse_checkedArguments : Options.parse checkedArguments = .ok checkedOptions := rfl

theorem ready_checkedOptions : checkedOptions.Ready (.recording mixedModule.save) [] mixedModule
    ["mypy", "--strict", "d/m.py"] where
  loads := ⟨_, _, rfl, Text.fromUTF8?_toUTF8 _, parse_save_mixedModule⟩
  unchecked h := by cases h
  checked _ := by
    have hwords : Text.words checkedOptions.checker = ["mypy", "--strict"] := by decide +kernel
    refine ⟨"d/m.py", [], by decide +kernel, by simp [← Text.words_eq_nil, hwords], ?_⟩
    rw [Options.checkerAnswer, hwords]
    rfl

/-- Logs without times and particulars. -/
def terseWording : Wording := ⟨fun _ => "", "", "", LogRecord.message⟩

def checkedOutcome : Outcome (List String) :=
  (Run.ofArguments terseWording checkedArguments).outcome (.recording mixedModule.save) []

end AnnotatedToC
