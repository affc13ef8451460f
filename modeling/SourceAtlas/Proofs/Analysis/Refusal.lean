import SourceAtlas.Proofs.Analysis.Survey
/-!
Refused analyses. `Workspace.analyze` gives an analysis or a fault; here it is taken apart into the
single steps by which the catalog, the rules of imports, the root, the cache and its files are changed,
one after the other, so that a step which is refused leaves behind what the steps before it have done.
Every check comes before the first change, also when the analysis is forced: what is refused changes
nothing, and queries are refused exactly until an analysis has taken place.
-/

namespace SourceAtlas

/-- What an analysis works on: the workspace, and all files. -/
structure Desk where
  workspace : Workspace
  tree : FileTree

/-- Why an analysis is refused. -/
inductive Refusal where
  | fault (fault : Fault)
  /-- The pattern cannot be made into a matcher. -/
  | unusable (pattern : String)
  deriving DecidableEq, Repr

/-- Steps on a desk. What they change stays changed, even if a later one is refused. -/
abbrev Procedure := EStateM Refusal Desk

namespace Procedure

/-! ### Steps -/

/-- The root of the project at a path. -/
def projectRoot (path : String) : Procedure String := do
  match Workspace.projectRoot (← get).tree path with
  | .ok root => return root
  | .error fault => throw (.fault fault)

/-- Every pattern is made into a matcher, which the first that is unusable refuses. -/
def compile (usable : String → Bool) (patterns : List String) : Procedure Unit :=
  match patterns.find? (!usable ·) with
  | some pattern => throw (.unusable pattern)
  | none => return ()

/-- Nothing is analyzed any more. -/
def reset : Procedure Unit := modify fun d => { d with workspace := d.workspace.reset }

/-- The entry of a key is deleted from memory and file. -/
def delete (key : String) : Procedure Unit :=
  modify fun d =>
    let (cache, tree) := d.workspace.cache.delete d.tree key
    ⟨{ d.workspace with cache }, tree⟩

/-- The rules of imports are those of the project. -/
def loadRules (root : String) : Procedure Unit :=
  modify fun d => { d with workspace.resolver := Resolver.load d.tree root.toList }

def setRoot (root : String) : Procedure Unit :=
  modify fun d => { d with workspace.root := some root }

def setCatalog (catalog : Catalog) : Procedure Unit :=
  modify fun d => { d with workspace.catalog := catalog }

/-- The catalog in the cache under a key, if it may be used. -/
def restore (now : Int) (key : String) : Procedure (Option Catalog) :=
  modifyGet fun d =>
    let (catalog, cache, tree) := d.workspace.restore d.tree now key
    (catalog, ⟨{ d.workspace with cache }, tree⟩)

/-- A catalog is stored under a key. -/
def store (now : Int) (key : String) (catalog : Catalog) : Procedure Unit :=
  modify fun d =>
    let (cache, tree) := d.workspace.cache.set d.tree now key catalog.toSnapshot.toJson
      (some d.workspace.config.cache.ttl)
    ⟨{ d.workspace with cache }, tree⟩

/-- The totals of an analysis, and its reports. -/
abbrev Outcome := AnalysisSummary × List (Nat × Nat)

/-- The files are read, the new catalog takes the place of the old one, and it is stored. -/
def build (now : Int) (key root : String) (filter : FileFilter) : Procedure Outcome := do
  let ⟨w, t⟩ ← get
  let files := Discovery.files t root.toList filter
  let survey := Survey.ofFiles t w.resolver root.toList w.config.indexing.batchSize files
  let catalog := { survey.catalog with lastIndexed := now }
  setCatalog catalog
  if w.config.cache.enabled then store now key catalog
  return (.ofCatalog catalog false, survey.reports.reverse)

/-- The checks of an analysis, which find its subject. `usable` says which patterns can be made into
matchers. -/
def check (usable : String → Bool) (o : AnalyzeOptions) : Procedure Subject := do
  let root ← projectRoot o.projectPath
  let indexing := (← get).workspace.config.indexing
  let included := if o.included.isEmpty then indexing.included else o.included
  let excluded := if o.excluded.isEmpty then indexing.excluded else o.excluded
  compile usable included
  compile usable excluded
  return ⟨root, included, excluded⟩

/-- The changes that an analysis makes once its subject is known. -/
def change (now : Int) (s : Subject) (force : Bool) : Procedure Outcome := do
  if force then
    reset
    delete s.key
  loadRules s.root
  setRoot s.root
  if !force then
    if let some catalog ← restore now s.key then
      setCatalog catalog
      return (.ofCatalog catalog true, [])
  build now s.key s.root s.filter

/-- The analysis of a project, step by step. -/
def analyze (usable : String → Bool) (now : Int) (o : AnalyzeOptions) : Procedure Outcome := do
  let s ← check usable o
  change now s o.force

/-! ### What the steps amount to -/

variable {usable : String → Bool} {now : Int} {o : AnalyzeOptions} {d : Desk}

theorem run_projectRoot (path : String) : (projectRoot path).run d =
    match Workspace.projectRoot d.tree path with
    | .ok root => .ok root d
    | .error fault => .error (.fault fault) d := by
  rw [projectRoot, EStateM.run_bind, EStateM.run_get]
  dsimp only
  cases Workspace.projectRoot d.tree path <;> rfl

theorem run_compile (patterns : List String) : (compile usable patterns).run d =
    match patterns.find? (!usable ·) with
    | some pattern => .error (.unusable pattern) d
    | none => .ok () d := by
  rw [compile]
  cases patterns.find? (!usable ·) <;> rfl

/-- The checks change nothing. -/
theorem run_check : (check usable o).run d =
    match d.workspace.subject d.tree o with
    | .error fault => .error (.fault fault) d
    | .ok s =>
      match (s.included ++ s.excluded).find? (!usable ·) with
      | some pattern => .error (.unusable pattern) d
      | none => .ok s d := by
  rw [check, EStateM.run_bind, run_projectRoot, Workspace.subject]
  cases Workspace.projectRoot d.tree o.projectPath with
  | error fault => rfl
  | ok root =>
    simp only [Except.map, EStateM.run_bind, EStateM.run_get, run_compile, List.find?_append]
    generalize List.find? (!usable ·) (if o.included.isEmpty then _ else _) = first
    generalize List.find? (!usable ·) (if o.excluded.isEmpty then _ else _) = second
    cases first <;> cases second <;> rfl

/-- What an analysis leaves on the desk. -/
def done (a : Analysis) : EStateM.Result Refusal Desk Outcome :=
  .ok (a.summary, a.progress) ⟨a.workspace, a.tree⟩

theorem run_reset : reset.run d = .ok () ⟨d.workspace.reset, d.tree⟩ := by
  rw [reset, EStateM.run_modify]

theorem run_delete (key : String) : (delete key).run d =
    .ok () ⟨{ d.workspace with cache := (d.workspace.cache.delete d.tree key).1 },
      (d.workspace.cache.delete d.tree key).2⟩ := by
  rw [delete, EStateM.run_modify]

theorem run_loadRules (root : String) : (loadRules root).run d =
    .ok () ⟨{ d.workspace with resolver := Resolver.load d.tree root.toList }, d.tree⟩ := by
  rw [loadRules, EStateM.run_modify]

theorem run_setRoot (root : String) : (setRoot root).run d =
    .ok () ⟨{ d.workspace with root := some root }, d.tree⟩ := by
  rw [setRoot, EStateM.run_modify]

theorem run_setCatalog (catalog : Catalog) : (setCatalog catalog).run d =
    .ok () ⟨{ d.workspace with catalog }, d.tree⟩ := by
  rw [setCatalog, EStateM.run_modify]

theorem run_restore (key : String) : (restore now key).run d =
    .ok (d.workspace.restore d.tree now key).1
      ⟨{ d.workspace with cache := (d.workspace.restore d.tree now key).2.1 },
        (d.workspace.restore d.tree now key).2.2⟩ := by
  rw [restore, EStateM.run_modifyGet]

theorem run_build (key root : String) (filter : FileFilter) : (build now key root filter).run d =
    done (d.workspace.build d.tree now key root filter) := by
  unfold build Workspace.build
  simp only [EStateM.run_bind, EStateM.run_get, run_setCatalog]
  cases d.workspace.config.cache.enabled <;> rfl

/-- A build takes no notice of the catalog before it. -/
theorem build_congr {v w : Workspace} (h : { v with catalog := w.catalog } = w) (t : FileTree)
    (key root : String) (filter : FileFilter) :
    v.build t now key root filter = w.build t now key root filter := by
  cases v
  cases w
  cases h
  unfold Workspace.build
  rfl

/-- Once they are done, no step is refused, and all of them together are the analysis. -/
theorem run_change (s : Subject) (force : Bool) : (change now s force).run d =
    done (d.workspace.analyzeRoot d.tree now s.root s.included s.excluded force) := by
  cases force with
  | true =>
    rw [change, Workspace.analyzeRoot_built (Workspace.consult_forced s.key)]
    simp only [if_true, EStateM.run_bind, run_reset, run_delete, run_loadRules, run_setRoot,
      Bool.not_true, Bool.false_eq_true, if_false, run_build]
    simp only [Cache.delete, Workspace.reset]
    exact congrArg done (build_congr (by rw [Workspace.onto]) _ s.key s.root s.filter)
  | false =>
    have asked : (d.workspace.onto d.workspace.cache d.tree s).restore d.tree now s.key =
        d.workspace.restore d.tree now s.key :=
      Workspace.restore_congr (v := d.workspace.onto _ _ s) (w := d.workspace) rfl rfl s.key
    unfold Workspace.onto at asked
    rw [change]
    simp only [Bool.false_eq_true, if_false, EStateM.run_bind, run_loadRules, run_setRoot,
      Bool.not_false, if_true, run_restore, asked]
    rcases consulted : d.workspace.restore d.tree now s.key with ⟨found, cache, u⟩
    rw [← Workspace.consult_unforced] at consulted
    cases found with
    | some catalog =>
      rw [Workspace.analyzeRoot_restored consulted, EStateM.run_bind, run_setCatalog]
      rfl
    | none =>
      rw [Workspace.analyzeRoot_built consulted]
      exact run_build s.key s.root s.filter

/-- The procedure is the analysis, as far as patterns can be used. -/
theorem run_analyze : (analyze usable now o).run d =
    match d.workspace.subject d.tree o with
    | .error fault => .error (.fault fault) d
    | .ok s =>
      match (s.included ++ s.excluded).find? (!usable ·) with
      | some pattern => .error (.unusable pattern) d
      | none => done (d.workspace.analyzeRoot d.tree now s.root s.included s.excluded o.force) := by
  rw [analyze, EStateM.run_bind, run_check]
  cases d.workspace.subject d.tree o with
  | error fault => rfl
  | ok s =>
    dsimp only
    cases (s.included ++ s.excluded).find? (!usable ·) with
    | some pattern => rfl
    | none => exact run_change s o.force

/-- The patterns in force: empty lists mean the settings' own. -/
def patterns (w : Workspace) (o : AnalyzeOptions) : List String :=
  (if o.included.isEmpty then w.config.indexing.included else o.included) ++
    if o.excluded.isEmpty then w.config.indexing.excluded else o.excluded

/-- With patterns that can be used, the procedure is the analysis. -/
theorem run_analyze_of_usable (h : ∀ p ∈ patterns d.workspace o, usable p) :
    (analyze usable now o).run d =
      match d.workspace.analyze d.tree now o with
      | .ok a => done a
      | .error fault => .error (.fault fault) d := by
  have all : (patterns d.workspace o).find? (!usable ·) = none := by
    rw [List.find?_eq_none]
    intro p mem
    simp [h p mem]
  rw [run_analyze, Workspace.analyze, Workspace.subject]
  cases Workspace.projectRoot d.tree o.projectPath with
  | error fault => rfl
  | ok root =>
    rw [patterns] at all
    simp only [Except.map, all]

/-- What is refused changes nothing. -/
theorem eq_of_refused {r : Refusal} {d' : Desk} (h : (analyze usable now o).run d = .error r d') :
    d' = d := by
  rw [run_analyze] at h
  split at h
  · exact (EStateM.Result.error.inj h).2.symm
  · split at h
    · exact (EStateM.Result.error.inj h).2.symm
    · cases h

/-- An analysis whose patterns can be used is refused for its path alone. -/
theorem refused_iff (h : ∀ p ∈ patterns d.workspace o, usable p) (r : Refusal) :
    (∃ d', (analyze usable now o).run d = .error r d') ↔
      r = .fault (.relativeProject o.projectPath) ∧ Path.isAbsolute o.projectPath.toList = false ∨
      r = .fault (.notADirectory o.projectPath) ∧ Path.isAbsolute o.projectPath.toList ∧
        d.tree.isDirectory o.projectPath.toList = false := by
  rw [run_analyze_of_usable h, Workspace.analyze, Workspace.projectRoot]
  cases Path.isAbsolute o.projectPath.toList with
  | false => simpa using eq_comm
  | true =>
    cases d.tree.isDirectory o.projectPath.toList with
    | false => simpa using eq_comm
    | true => simp [done]

end Procedure

/-! ### Runs -/

/-- What happens to a desk. Queries change nothing, so they are not among it. -/
inductive DeskEvent where
  | analyze (now : Int) (o : AnalyzeOptions)
  | reset
  /-- The files are changed from outside, or the cache is used for something else. -/
  | other (effect : Cache → FileTree → Cache × FileTree)

namespace Desk

variable (usable : String → Bool)

/-- The desk that a procedure leaves, whether it was refused or not. -/
def left : EStateM.Result Refusal Desk α → Desk
  | .ok _ d => d
  | .error _ d => d

/-- One event. -/
def step (d : Desk) : DeskEvent → Desk
  | .analyze now o => left ((Procedure.analyze usable now o).run d)
  | .reset => left (Procedure.reset.run d)
  | .other effect =>
    let (cache, tree) := effect d.workspace.cache d.tree
    ⟨{ d.workspace with cache }, tree⟩

/-- Events one after the other. -/
def run (d : Desk) (events : List DeskEvent) : Desk := events.foldl (step usable) d

/-- The analysis takes place. -/
def Succeeds (d : Desk) (now : Int) (o : AnalyzeOptions) : Prop :=
  ∃ outcome d', (Procedure.analyze usable now o).run d = .ok outcome d'

/-- Among these events an analysis took place, and there was no reset after it. -/
def Analyzed (d : Desk) (events : List DeskEvent) : Prop :=
  ∃ before now o after, events = before ++ .analyze now o :: after ∧ .reset ∉ after ∧
    Succeeds usable (d.run usable before) now o

variable {usable} {d : Desk}

theorem root_of_succeeds {now : Int} {o : AnalyzeOptions} (h : Succeeds usable d now o) :
    (d.step usable (.analyze now o)).workspace.root ≠ none := by
  obtain ⟨outcome, d', result⟩ := h
  rw [step, result]
  rw [Procedure.run_analyze] at result
  split at result
  · cases result
  · split at result
    · cases result
    · rename_i s _ _ _
      obtain ⟨-, rfl⟩ := EStateM.Result.ok.inj result
      rw [left, Workspace.root_analyzeRoot]
      exact Option.some_ne_none _

theorem step_of_not_succeeds {now : Int} {o : AnalyzeOptions} (h : ¬Succeeds usable d now o) :
    d.step usable (.analyze now o) = d := by
  rw [step]
  cases result : (Procedure.analyze usable now o).run d with
  | ok outcome d' => exact absurd ⟨outcome, d', result⟩ h
  | error r d' => exact Procedure.eq_of_refused result

theorem not_analyzed_nil : ¬Analyzed usable d [] := by
  rintro ⟨before, now, o, after, split, _⟩
  cases before <;> cases split

theorem analyzed_cons {e : DeskEvent} {events : List DeskEvent} :
    Analyzed usable d (e :: events) ↔
      (∃ now o, e = .analyze now o ∧ .reset ∉ events ∧ Succeeds usable d now o) ∨
        Analyzed usable (d.step usable e) events := by
  constructor
  · rintro ⟨before, now, o, after, split, kept, ok⟩
    cases before with
    | nil =>
      obtain ⟨rfl, rfl⟩ := List.cons.inj split
      exact .inl ⟨now, o, rfl, kept, ok⟩
    | cons first before =>
      obtain ⟨rfl, rfl⟩ := List.cons.inj split
      exact .inr ⟨before, now, o, after, rfl, kept, ok⟩
  · rintro (⟨now, o, rfl, kept, ok⟩ | ⟨before, now, o, after, rfl, kept, ok⟩)
    · exact ⟨[], now, o, events, rfl, kept, ok⟩
    · exact ⟨e :: before, now, o, after, rfl, kept, ok⟩

/-- There is no root as long as no analysis took place, counted from the last reset. -/
theorem root_run_eq_none (events : List DeskEvent) : (d.run usable events).workspace.root = none ↔
    (d.workspace.root = none ∨ .reset ∈ events) ∧ ¬Analyzed usable d events := by
  induction events generalizing d with
  | nil => simp [run, not_analyzed_nil]
  | cons e events ih =>
    rw [run, List.foldl_cons, ← run, ih, analyzed_cons]
    cases e with
    | analyze now o =>
      by_cases ok : Succeeds usable d now o
      · have rooted := root_of_succeeds ok
        grind
      · simp [ok, step_of_not_succeeds ok]
    | reset =>
      have cleared : (d.step usable .reset).workspace.root = none := by
        rw [step, Procedure.run_reset]
        rfl
      simp [cleared]
    | other effect =>
      have kept : (d.step usable (.other effect)).workspace.root = d.workspace.root := by
        rw [step]
      simp [kept]

theorem atlas_eq_notAnalyzed (w : Workspace) : w.atlas = .error .notAnalyzed ↔ w.root = none := by
  rw [Workspace.atlas]
  cases w.root <;> simp

/-- A refused analysis leaves everything as it was, forced or not; an analysis whose patterns can be
used is refused for its path alone, and is otherwise the analysis of the workspace; and queries are
refused exactly when no analysis took place since the workspace was created or last reset. -/
theorem refusal_exact (usable : String → Bool) :
    (∀ d now o r d', (Procedure.analyze usable now o).run d = .error r d' → d' = d) ∧
    (∀ d now o, (∀ p ∈ Procedure.patterns d.workspace o, usable p) →
      ((Procedure.analyze usable now o).run d =
        match d.workspace.analyze d.tree now o with
        | .ok a => Procedure.done a
        | .error fault => .error (.fault fault) d) ∧
      ∀ r, (∃ d', (Procedure.analyze usable now o).run d = .error r d') ↔
        r = .fault (.relativeProject o.projectPath) ∧ Path.isAbsolute o.projectPath.toList = false ∨
        r = .fault (.notADirectory o.projectPath) ∧ Path.isAbsolute o.projectPath.toList ∧
          d.tree.isDirectory o.projectPath.toList = false) ∧
    ∀ config dir t events,
      ((Desk.mk (.create config dir) t).run usable events).workspace.atlas = .error .notAnalyzed ↔
        ¬Analyzed usable ⟨.create config dir, t⟩ events := by
  refine ⟨?_, ?_, ?_⟩
  · intro d now o r d' refused
    exact Procedure.eq_of_refused refused
  · intro d now o h
    exact ⟨Procedure.run_analyze_of_usable h, Procedure.refused_iff h⟩
  · intro config dir t events
    rw [atlas_eq_notAnalyzed, root_run_eq_none]
    exact and_iff_right (.inl rfl)

/-- A desk with the sample project. -/
def sample : Desk := ⟨.create {} "/c", Workspace.sampleProject⟩

theorem succeeds_sample {usable : String → Bool} (h : ∀ p ∈ ["**/*.ts", "x"], usable p) :
    Succeeds usable sample 0 (Workspace.sampleOptions true) := by
  have all : ["**/*.ts", "x"].find? (!usable ·) = none := by
    rw [List.find?_eq_none]
    intro p mem
    simp [h p mem]
  have subject : sample.workspace.subject sample.tree (Workspace.sampleOptions true) = _ :=
    Workspace.subject_sampleOptions _ true Workspace.isDirectory_sampleProject
  rw [Succeeds, Procedure.run_analyze, subject]
  simp only [Workspace.sampleSubject, List.cons_append, List.nil_append, all]
  exact ⟨_, _, rfl⟩

/-- On the sample project, an analysis that is refused for its path, though it is forced, changes
nothing: queries are refused before, and go on after an analysis that took place, until a reset. -/
theorem refusal_exact_sample :
    let usable := fun p : String => decide (p.length < 1000)
    let analysis := DeskEvent.analyze 0 (Workspace.sampleOptions true)
    let refused := DeskEvent.analyze 0 ⟨"p", [], [], true⟩
    (∃ d', (Procedure.analyze usable 0 ⟨"p", [], [], true⟩).run sample =
        .error (.fault (.relativeProject "p")) d') ∧
      (sample.run usable [refused]).workspace.atlas = .error .notAnalyzed ∧
      (sample.run usable [analysis, refused]).workspace.atlas ≠ .error .notAnalyzed ∧
      (sample.run usable [analysis, refused, .reset]).workspace.atlas = .error .notAnalyzed := by
  intro usable analysis refused
  obtain ⟨_, paths, queries⟩ := refusal_exact usable
  have queries := queries {} "/c" Workspace.sampleProject
  have ok : Succeeds usable sample 0 (Workspace.sampleOptions true) := succeeds_sample (by decide)
  have relative : ∃ d', (Procedure.analyze usable 0 ⟨"p", [], [], true⟩).run sample =
      .error (.fault (.relativeProject "p")) d' :=
    ((paths sample 0 ⟨"p", [], [], true⟩ (by decide)).2 _).2 (.inl ⟨rfl, by decide⟩)
  refine ⟨relative, (queries [refused]).2 ?_, fun silent => (queries [analysis, refused]).1 silent ?_,
    (queries [analysis, refused, .reset]).2 ?_⟩
  · have fails : ¬Succeeds usable sample 0 ⟨"p", [], [], true⟩ := by
      rintro ⟨outcome, d, result⟩
      obtain ⟨d', failed⟩ := relative
      cases failed.symm.trans result
    rw [analyzed_cons]
    rintro (⟨now, o, same, _, done⟩ | later)
    · obtain ⟨rfl, rfl⟩ := DeskEvent.analyze.inj same
      exact fails done
    · exact not_analyzed_nil later
  · exact ⟨[], 0, _, [refused], rfl, by simp [refused], ok⟩
  · simp [analyzed_cons, not_analyzed_nil]

end Desk

end SourceAtlas
