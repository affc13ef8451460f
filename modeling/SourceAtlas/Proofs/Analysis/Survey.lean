import SourceAtlas.Proofs.Analysis.Outcome
import SourceAtlas.Proofs.Catalog.TextMap
import SourceAtlas.Proofs.Discovery.Walk
/-!
What the survey of a project's files gives. The batches play no part in it: a survey takes in one
file after the other, and its catalog holds for each of them what came out of that file and nothing
for other paths.
-/

namespace SourceAtlas

/-! ### Batches -/

theorem flatten_inBatches (size : Nat) : ∀ (fuel : Nat) (items : List α), items.length ≤ fuel →
    (inBatches size fuel items).flatten = items
  | 0, [], _ => rfl
  | _ + 1, [], _ => rfl
  | fuel + 1, a :: items, h => by
    have shorter : ((a :: items).drop (max size 1)).length ≤ fuel := by
      rw [List.length_drop]
      simp only [List.length_cons] at h ⊢
      omega
    rw [inBatches, List.flatten_cons, flatten_inBatches size fuel _ shorter, List.take_append_drop]
    simp

namespace Survey

variable {process : List Char → Option ProcessedFile} {total : Nat}

/-- In a batch each outcome stands beside its own path. -/
theorem advanceBatch_eq (s : Survey) (batch : List (List Char)) :
    s.advanceBatch process total batch =
      batch.foldl (fun s path => s.advance total (process path)) s := by
  rw [advanceBatch]
  induction batch generalizing s with
  | nil => rfl
  | cons path batch ih => exact ih (s.advance total (process path))

theorem foldl_advanceBatch (batches : List (List (List Char))) (s : Survey) :
    batches.foldl (advanceBatch process total) s =
      batches.flatten.foldl (fun s path => s.advance total (process path)) s := by
  induction batches generalizing s with
  | nil => rfl
  | cons batch batches ih =>
    rw [List.foldl_cons, ih, List.flatten_cons, List.foldl_append, advanceBatch_eq]

/-- The survey takes in one file after the other, whatever the size of its batches. -/
theorem ofFiles_eq (t : FileTree) (resolver : Resolver) (root : List Char) (batchSize : Nat)
    (files : List (List Char)) :
    ofFiles t resolver root batchSize files =
      files.foldl (fun s path => s.advance files.length (processFile t resolver root path)) {} := by
  rw [ofFiles, foldl_advanceBatch, flatten_inBatches batchSize _ _ (Nat.le_refl _)]

/-! ### Reports -/

end Survey

/-! ### Contents -/

/-- What a catalog holds under one path: its record, and what was found in its text. -/
def Catalog.HoldsAt (c : Catalog) (path : String) (f : Option FileRecord) (x : Option Extraction) :
    Prop :=
  c.files.get? path = f ∧ c.symbols.get? path = x.map (·.symbols) ∧
    c.routes.get? path = x.map (·.routes) ∧ c.dependencies.get? path = x.map (·.dependencies)

theorem Catalog.holdsAt_empty (path : String) : Catalog.empty.HoldsAt path none none :=
  ⟨rfl, rfl, rfl, rfl⟩

theorem record?_of_processFile {t : FileTree} {resolver : Resolver} {root path : List Char}
    {p : ProcessedFile} (h : processFile t resolver root path = some p) :
    Discovery.record? t root path = some p.record := by
  rw [processFile] at h
  split at h
  · cases h
  · rename_i f record
    split at h
    · obtain ⟨text, _, rfl⟩ := Option.map_eq_some_iff.1 h
      exact record
    · obtain rfl := Option.some.inj h
      exact record

theorem path_of_processFile {t : FileTree} {resolver : Resolver} {root path : List Char}
    {p : ProcessedFile} (h : processFile t resolver root path = some p) :
    p.record.path = .ofList path :=
  Discovery.path_of_record? (record?_of_processFile h)

/-- The catalog is changed under the path of the file alone. -/
theorem Catalog.recordProcessed_other {c : Catalog} {p : ProcessedFile} {k : String}
    (ne : k ≠ p.record.path) {f : Option FileRecord} {x : Option Extraction} (h : c.HoldsAt k f x) :
    (c.recordProcessed p).HoldsAt k f x := by
  obtain ⟨record, extraction⟩ := p
  obtain ⟨files, symbols, routes, dependencies⟩ := h
  cases extraction with
  | none => simp_all [HoldsAt, recordProcessed, recordFile]
  | some x => simp_all [HoldsAt, recordProcessed, recordFile, recordExtraction]

/-- Under that path it holds what came out of the file, if it held nothing or the same before. -/
theorem Catalog.recordProcessed_self {c : Catalog} {p : ProcessedFile}
    (h : c.HoldsAt p.record.path none none ∨
      c.HoldsAt p.record.path (some p.record) p.extraction) :
    (c.recordProcessed p).HoldsAt p.record.path (some p.record) p.extraction := by
  obtain ⟨record, extraction⟩ := p
  cases extraction with
  | none =>
    rcases h with ⟨_, symbols, routes, dependencies⟩ | ⟨_, symbols, routes, dependencies⟩ <;>
      simp_all [HoldsAt, recordProcessed, recordFile]
  | some x => simp [HoldsAt, recordProcessed, recordFile, recordExtraction]

namespace Survey

variable {process : List Char → Option ProcessedFile} {total : Nat}

/-- The outcome for a path among those that were seen. -/
def outcome? (process : List Char → Option ProcessedFile) (seen : List (List Char)) (k : String) :
    Option ProcessedFile :=
  if k.toList ∈ seen then process k.toList else none

/-- The catalog of a survey holds the outcomes of the paths that were seen and nothing else. -/
def Covers (process : List Char → Option ProcessedFile) (seen : List (List Char)) (s : Survey) :
    Prop :=
  ∀ k, s.catalog.HoldsAt k ((outcome? process seen k).map (·.record))
    ((outcome? process seen k).bind (·.extraction))

theorem Covers.advance (named : ∀ path p, process path = some p → p.record.path = .ofList path)
    {seen : List (List Char)} {s : Survey} (h : Covers process seen s) (total : Nat)
    (path : List Char) : Covers process (seen ++ [path]) (s.advance total (process path)) := by
  intro k
  have before := h k
  by_cases here : k.toList = path
  · have later : outcome? process (seen ++ [path]) k = process path := by
      rw [outcome?, if_pos (by simp [here]), here]
    rw [later]
    cases outcome : process path with
    | none =>
      have nothing : outcome? process seen k = none := by
        rw [outcome?, here, outcome]
        split <;> rfl
      rw [nothing] at before
      exact before
    | some p =>
      have key : k = p.record.path := by rw [named path p outcome, ← here, String.ofList_toList]
      rw [outcome?, here, outcome] at before
      subst key
      refine Catalog.recordProcessed_self ?_
      split at before
      · exact .inr before
      · exact .inl before
  · have same : outcome? process (seen ++ [path]) k = outcome? process seen k := by
      simp [outcome?, here]
    rw [same]
    cases outcome : process path with
    | none => exact before
    | some p =>
      refine Catalog.recordProcessed_other ?_ before
      rintro rfl
      exact here (by rw [named path p outcome, String.toList_ofList])

/-- So does the survey of a whole list of paths. -/
theorem Covers.foldl (named : ∀ path p, process path = some p → p.record.path = .ofList path)
    (files : List (List Char)) {seen : List (List Char)} {s : Survey} (h : Covers process seen s) :
    Covers process (seen ++ files)
      (files.foldl (fun s path => s.advance total (process path)) s) := by
  induction files generalizing seen s with
  | nil => simpa using h
  | cons path files ih =>
    -- one more path is seen, and the survey covers it
    have rest := ih (h.advance named total path)
    rw [List.append_assoc, List.singleton_append] at rest
    exact rest

/-- The catalog of a survey holds what came out of each of its files, and nothing under any other
path. -/
theorem covers_ofFiles (t : FileTree) (resolver : Resolver) (root : List Char) (batchSize : Nat)
    (files : List (List Char)) :
    Covers (processFile t resolver root) files (ofFiles t resolver root batchSize files) := by
  rw [ofFiles_eq]
  have start : Covers (processFile t resolver root) [] {} := Catalog.holdsAt_empty
  exact Covers.foldl (fun _ _ => path_of_processFile) files start

end Survey

/-! ### Analyses -/

/-- The catalog holds exactly what the files under some paths give: the record of every file, and
what is found in its text if that is read; nothing of a file that should be read and is no text;
nothing under any other path. -/
def Catalog.Exact (c : Catalog) (t : FileTree) (resolver : Resolver) (root : List Char)
    (paths : List (List Char)) : Prop :=
  (∀ k : String, k.toList ∈ paths → ∃ f, Discovery.record? t root k.toList = some f ∧
    (Source.isReadable k = false → c.HoldsAt k (some f) none) ∧
    (Source.isReadable k → t.readText? k.toList = none → c.HoldsAt k none none) ∧
    (Source.isReadable k → ∀ text, t.readText? k.toList = some text →
      c.HoldsAt k (some f) (some (Source.extract resolver text k)))) ∧
  ∀ k : String, k.toList ∉ paths → c.HoldsAt k none none

theorem processFile_unreadable {t : FileTree} {resolver : Resolver} {root path : List Char}
    {f : FileRecord} (record : Discovery.record? t root path = some f)
    (skipped : Source.isReadable f.path = false) :
    processFile t resolver root path = some ⟨f, none⟩ := by
  simp [processFile, record, skipped]

theorem processFile_readable {t : FileTree} {resolver : Resolver} {root path : List Char}
    {f : FileRecord} (record : Discovery.record? t root path = some f)
    (readable : Source.isReadable f.path) :
    processFile t resolver root path =
      (t.readText? path).map fun text => ⟨f, some (Source.extract resolver text f.path)⟩ := by
  simp [processFile, record, readable]

/-- The catalog of a survey is exact. -/
theorem Survey.exact_ofFiles {t : FileTree} (wf : t.WellFormed) (resolver : Resolver)
    (root : List Char) (filter : FileFilter) (batchSize : Nat) :
    (ofFiles t resolver root batchSize (Discovery.files t root filter)).catalog.Exact t resolver root
      (Discovery.files t root filter) := by
  have covers := covers_ofFiles t resolver root batchSize (Discovery.files t root filter)
  refine ⟨fun k mem => ?_, fun k absent => ?_⟩
  · have holds := covers k
    rw [outcome?, if_pos mem] at holds
    obtain ⟨f, record⟩ := Option.isSome_iff_exists.1 (Discovery.record?_isSome wf mem)
    have path : f.path = k := by
      rw [Discovery.path_of_record? record, String.ofList_toList]
    refine ⟨f, record, fun skipped => ?_, fun readable missing => ?_, fun readable text there => ?_⟩
    · rw [processFile_unreadable record (path ▸ skipped)] at holds
      exact holds
    · rw [processFile_readable record (path ▸ readable), missing] at holds
      exact holds
    · rw [processFile_readable record (path ▸ readable), there, path] at holds
      exact holds
  · have holds := covers k
    rw [outcome?, if_neg absent] at holds
    exact holds

namespace Workspace

variable {w : Workspace} {t : FileTree} {now : Int}

/-- A project of two files, of which the second is no text. -/
def sampleProject : FileTree :=
  ⟨[([['p']], .directory), ([['p'], "a.ts".toList], .file "class A {}".toUTF8 1),
    ([['p'], "b.ts".toList], .file ⟨#[255]⟩ 2)], []⟩

/-- Its subject, if asked for with the options that follow. -/
def sampleSubject : Subject := ⟨"/p", ["**/*.ts"], ["x"]⟩

def sampleOptions (force : Bool) : AnalyzeOptions := ⟨"/p", ["**/*.ts"], ["x"], force⟩

/-- With these options, all workspaces have the same subject in every tree with the directory. -/
theorem subject_sampleOptions (w : Workspace) (force : Bool)
    (directory : t.isDirectory "/p".toList = true) :
    w.subject t (sampleOptions force) = .ok sampleSubject := by
  have absolute : Path.isAbsolute "/p".toList = true := by decide
  have normal : Path.normalized "/p" = "/p" := by decide +kernel
  have root : projectRoot t "/p" = .ok "/p" := by
    simp only [projectRoot, absolute, directory, normal]
    rfl
  rw [subject, sampleOptions, root]
  rfl

theorem isDirectory_sampleProject : sampleProject.isDirectory "/p".toList = true := by decide +kernel

end Workspace

end SourceAtlas
