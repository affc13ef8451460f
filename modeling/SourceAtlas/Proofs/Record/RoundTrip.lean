import SourceAtlas.Catalog.Snapshot
import SourceAtlas.Proofs.Association
import SourceAtlas.Proofs.Json.RoundTrip
/-!
Records are read back from their documents. A record *fits* when its numbers are integers of 64 bits,
as those of every record that a program holds are. The document of a record that fits is plain and
gives the record again, and so do those of a whole snapshot.
-/

namespace SourceAtlas

namespace Json

/-! ### Fields -/

theorem string?_string (s : String) : string? (string s) = some s := rfl

theorem nat?_nat {n : Nat} (h : isUnsigned64 n) : nat? (nat n) = some n := by
  simp [nat?, nat, h]

theorem int?_int {i : Int} (h : isSigned64 i) : int? (int i) = some i := by
  simp [int?, int, h]

theorem lookup_optional (name other : String) (f : α → Json) (o : Option α) :
    (optional name f o).lookup other = if other = name then o.map f else none := by
  cases o with
  | none => simp [optional]
  | some a => rw [optional, lookup_cons_ite, List.lookup_nil, Option.map_some]

theorem fields?_object (names : List String) (count : Nat) (fs : List (String × Json)) :
    fields? names count (object fs) = some fs := rfl

/-- A reader goes on with what a field gave. -/
theorem bind_eq {o : Option α} {a : α} (h : o = some a) (next : α → Option β) :
    (o >>= next) = next a := by
  rw [h]
  rfl

theorem required_eq {fs : List (String × Json)} {name : String} {read : Json → Option α} {j : Json}
    {a : α} (there : fs.lookup name = some j) (reads : read j = some a) :
    required fs name read = some a := by
  rw [required, there, Option.bind_some, reads]

/-- A field that is left out when it is unset is read back, if it is never written as `null`. -/
theorem unsettable_eq {fs : List (String × Json)} {name : String} {read : Json → Option α}
    {w : α → Json} {o : Option α} (there : fs.lookup name = o.map w) (proper : ∀ a, w a ≠ null)
    (reads : ∀ a ∈ o, read (w a) = some a) : unsettable fs name read = some o := by
  rw [unsettable, there]
  cases o with
  | none => rfl
  | some a =>
    have here := reads a rfl
    have set := proper a
    cases written : w a <;> simp_all

theorem mapM_map {write : α → Json} {read : Json → Option α} {as : List α}
    (reads : ∀ a ∈ as, read (write a) = some a) : (as.map write).mapM read = some as := by
  induction as with
  | nil => rfl
  | cons a as ih =>
    rw [List.map_cons, List.mapM_cons, reads a List.mem_cons_self,
      ih fun b hb => reads b (List.mem_cons_of_mem _ hb)]
    rfl

theorem list?_array {write : α → Json} {read : Json → Option α} {as : List α}
    (reads : ∀ a ∈ as, read (write a) = some a) : list? read (array (as.map write)) = some as :=
  mapM_map reads

theorem list?_strings (names : List String) : list? string? (array (names.map string)) = some names :=
  list?_array fun s _ => string?_string s

/-- The document of a pair is read back. -/
theorem twoOf?_pair {first : Json → Option α} {second : Json → Option β} {i j : Json} {a : α} {b : β}
    (left : first i = some a) (right : second j = some b) :
    twoOf? first second (array [i, j]) = some (a, b) := by
  rw [twoOf?, left, right]

end Json

/-! ### Words -/

theorem SymbolKind.ofWord?_word (k : SymbolKind) : ofWord? k.word = some k := by
  cases k <;> decide

theorem Visibility.ofWord?_word (v : Visibility) : ofWord? v.word = some v := by
  cases v <;> decide

theorem HttpMethod.ofWord?_word (m : HttpMethod) : ofWord? m.word = some m := by
  cases m <;> decide

theorem DependencyKind.ofWord?_word (k : DependencyKind) : ofWord? k.word = some k := by
  cases k <;> decide

/-! ### Records -/

/-- The size is one of 64 bits, and so is the time. -/
def FileRecord.Fits (f : FileRecord) : Prop := isUnsigned64 f.size ∧ isSigned64 f.lastModified

/-- The line and the column are numbers of 64 bits. -/
def SymbolRecord.Fits (s : SymbolRecord) : Prop := isUnsigned64 s.line ∧ isUnsigned64 s.column

/-- The line is a number of 64 bits. -/
def RouteRecord.Fits (r : RouteRecord) : Prop := isUnsigned64 r.line

/-- The line is a number of 64 bits. -/
def DependencyEdge.Fits (e : DependencyEdge) : Prop := isUnsigned64 e.line

theorem Parameter.ofJson?_object {fs : List (String × Json)} {p : Parameter}
    (name : Json.required fs "name" Json.string? = some p.name)
    (type : Json.unsettable fs "type" Json.string? = some p.type)
    (isOptional : Json.unsettable fs "optional" Json.bool? = some p.isOptional)
    (defaultValue : Json.unsettable fs "defaultValue" Json.string? = some p.defaultValue) :
    ofJson? (.object fs) = some p := by
  rw [ofJson?, Json.bind_eq (Json.fields?_object _ _ fs), Json.bind_eq name, Json.bind_eq type,
    Json.bind_eq isOptional, Json.bind_eq defaultValue]
  rfl

theorem Parameter.ofJson?_toJson (p : Parameter) : ofJson? p.toJson = some p := by
  refine ofJson?_object (Json.required_eq (j := .string p.name) ?_ rfl)
    (Json.unsettable_eq (w := .string) ?_ ?_ fun _ _ => rfl)
    (Json.unsettable_eq (w := .bool) ?_ ?_ fun _ _ => rfl)
    (Json.unsettable_eq (w := .string) ?_ ?_ fun _ _ => rfl) <;>
  simp [lookup_cons_ite, List.lookup_append, Json.lookup_optional]

theorem FileRecord.ofJson?_object {fs : List (String × Json)} {f : FileRecord}
    (path : Json.required fs "path" Json.string? = some f.path)
    (name : Json.required fs "name" Json.string? = some f.name)
    (extension : Json.required fs "extension" Json.string? = some f.extension)
    (size : Json.required fs "size" Json.nat? = some f.size)
    (lastModified : Json.required fs "lastModified" Json.int? = some f.lastModified)
    (relativePath : Json.required fs "relativePath" Json.string? = some f.relativePath) :
    ofJson? (.object fs) = some f := by
  rw [ofJson?, Json.bind_eq (Json.fields?_object _ _ fs), Json.bind_eq path, Json.bind_eq name,
    Json.bind_eq extension, Json.bind_eq size, Json.bind_eq lastModified, Json.bind_eq relativePath]
  rfl

theorem FileRecord.ofJson?_toJson {f : FileRecord} (fits : f.Fits) : ofJson? f.toJson = some f := by
  refine ofJson?_object (Json.required_eq (j := .string f.path) ?_ rfl)
    (Json.required_eq (j := .string f.name) ?_ rfl)
    (Json.required_eq (j := .string f.extension) ?_ rfl)
    (Json.required_eq (j := .nat f.size) ?_ (Json.nat?_nat fits.1))
    (Json.required_eq (j := .int f.lastModified) ?_ (Json.int?_int fits.2))
    (Json.required_eq (j := .string f.relativePath) ?_ rfl) <;>
  simp [lookup_cons_ite]

theorem SymbolRecord.ofJson?_object {fs : List (String × Json)} {s : SymbolRecord}
    (name : Json.required fs "name" Json.string? = some s.name)
    (kind : Json.required fs "kind" (Json.choice? SymbolKind.ofWord?) = some s.kind)
    (filePath : Json.required fs "filePath" Json.string? = some s.filePath)
    (line : Json.required fs "line" Json.nat? = some s.line)
    (column : Json.required fs "column" Json.nat? = some s.column)
    (parameters : Json.unsettable fs "parameters" (Json.list? Parameter.ofJson?) = some s.parameters)
    (returnType : Json.unsettable fs "returnType" Json.string? = some s.returnType)
    (visibility : Json.unsettable fs "visibility" (Json.choice? Visibility.ofWord?) = some s.visibility)
    (isStatic : Json.unsettable fs "isStatic" Json.bool? = some s.isStatic)
    (isAsync : Json.unsettable fs "isAsync" Json.bool? = some s.isAsync)
    (superclass : Json.unsettable fs "extends" Json.string? = some s.superclass)
    (interfaces : Json.unsettable fs "implements" (Json.list? Json.string?) = some s.interfaces)
    (signature : Json.required fs "signature" Json.string? = some s.signature) :
    ofJson? (.object fs) = some s := by
  rw [ofJson?, Json.bind_eq (Json.fields?_object _ _ fs), Json.bind_eq name, Json.bind_eq kind,
    Json.bind_eq filePath, Json.bind_eq line, Json.bind_eq column, Json.bind_eq parameters,
    Json.bind_eq returnType, Json.bind_eq visibility, Json.bind_eq isStatic, Json.bind_eq isAsync,
    Json.bind_eq superclass, Json.bind_eq interfaces, Json.bind_eq signature]
  rfl

theorem SymbolRecord.ofJson?_toJson {s : SymbolRecord} (fits : s.Fits) :
    ofJson? s.toJson = some s := by
  refine ofJson?_object (Json.required_eq (j := .string s.name) ?_ rfl)
    (Json.required_eq (j := .string s.kind.word) ?_ (SymbolKind.ofWord?_word _))
    (Json.required_eq (j := .string s.filePath) ?_ rfl)
    (Json.required_eq (j := .nat s.line) ?_ (Json.nat?_nat fits.1))
    (Json.required_eq (j := .nat s.column) ?_ (Json.nat?_nat fits.2))
    (Json.unsettable_eq (w := fun ps => .array (ps.map Parameter.toJson)) ?_ ?_
      fun _ _ => Json.list?_array fun p _ => Parameter.ofJson?_toJson p)
    (Json.unsettable_eq (w := .string) ?_ ?_ fun _ _ => rfl)
    (Json.unsettable_eq (w := fun v : Visibility => .string v.word) ?_ ?_ fun v _ => Visibility.ofWord?_word v)
    (Json.unsettable_eq (w := .bool) ?_ ?_ fun _ _ => rfl)
    (Json.unsettable_eq (w := .bool) ?_ ?_ fun _ _ => rfl)
    (Json.unsettable_eq (w := .string) ?_ ?_ fun _ _ => rfl)
    (Json.unsettable_eq (w := fun names => .array (names.map .string)) ?_ ?_
      fun names _ => Json.list?_strings names)
    (Json.required_eq (j := .string s.signature) ?_ rfl) <;>
  simp [members, lookup_cons_ite, List.lookup_append, Json.lookup_optional]

theorem RouteRecord.ofJson?_object {fs : List (String × Json)} {r : RouteRecord}
    (path : Json.required fs "path" Json.string? = some r.path)
    (method : Json.required fs "method" (Json.choice? HttpMethod.ofWord?) = some r.method)
    (filePath : Json.required fs "filePath" Json.string? = some r.filePath)
    (line : Json.required fs "line" Json.nat? = some r.line)
    (handler : Json.unsettable fs "handler" Json.string? = some r.handler)
    (middleware : Json.unsettable fs "middleware" (Json.list? Json.string?) = some r.middleware) :
    ofJson? (.object fs) = some r := by
  rw [ofJson?, Json.bind_eq (Json.fields?_object _ _ fs), Json.bind_eq path, Json.bind_eq method,
    Json.bind_eq filePath, Json.bind_eq line, Json.bind_eq handler, Json.bind_eq middleware]
  rfl

theorem RouteRecord.ofJson?_toJson {r : RouteRecord} (fits : r.Fits) : ofJson? r.toJson = some r := by
  refine ofJson?_object (Json.required_eq (j := .string r.path) ?_ rfl)
    (Json.required_eq (j := .string r.method.word) ?_ (HttpMethod.ofWord?_word _))
    (Json.required_eq (j := .string r.filePath) ?_ rfl)
    (Json.required_eq (j := .nat r.line) ?_ (Json.nat?_nat fits))
    (Json.unsettable_eq (w := .string) ?_ ?_ fun _ _ => rfl)
    (Json.unsettable_eq (w := fun names => .array (names.map .string)) ?_ ?_
      fun names _ => Json.list?_strings names) <;>
  simp [lookup_cons_ite, List.lookup_append, Json.lookup_optional]

theorem DependencyEdge.ofJson?_object {fs : List (String × Json)} {e : DependencyEdge}
    (source : Json.required fs "from" Json.string? = some e.source)
    (specifier : Json.required fs "to" Json.string? = some e.specifier)
    (resolved : Json.unsettable fs "resolvedTo" Json.string? = some e.resolved)
    (kind : Json.required fs "type" (Json.choice? DependencyKind.ofWord?) = some e.kind)
    (filePath : Json.required fs "filePath" Json.string? = some e.filePath)
    (line : Json.required fs "line" Json.nat? = some e.line) : ofJson? (.object fs) = some e := by
  rw [ofJson?, Json.bind_eq (Json.fields?_object _ _ fs), Json.bind_eq source,
    Json.bind_eq specifier, Json.bind_eq resolved, Json.bind_eq kind, Json.bind_eq filePath,
    Json.bind_eq line]
  rfl

theorem DependencyEdge.ofJson?_toJson {e : DependencyEdge} (fits : e.Fits) :
    ofJson? e.toJson = some e := by
  refine ofJson?_object (Json.required_eq (j := .string e.source) ?_ rfl)
    (Json.required_eq (j := .string e.specifier) ?_ rfl)
    (Json.unsettable_eq (w := .string) ?_ ?_ fun _ _ => rfl)
    (Json.required_eq (j := .string e.kind.word) ?_ (DependencyKind.ofWord?_word _))
    (Json.required_eq (j := .string e.filePath) ?_ rfl)
    (Json.required_eq (j := .nat e.line) ?_ (Json.nat?_nat fits)) <;>
  simp [lookup_cons_ite, List.lookup_append, Json.lookup_optional]

/-! ### Plain documents -/

namespace Json

/-- A plain document that is nested at most `n` deep. -/
def PlainWithin (n : Nat) (j : Json) : Prop := isPlain j ∧ nesting j ≤ n

theorem PlainWithin.mono {n m : Nat} {j : Json} (h : PlainWithin n j) (le : n ≤ m) :
    PlainWithin m j :=
  ⟨h.1, Nat.le_trans h.2 le⟩

theorem plainWithin_string (n : Nat) (s : String) : PlainWithin n (string s) :=
  ⟨rfl, Nat.zero_le n⟩

theorem plainWithin_bool (n : Nat) (b : Bool) : PlainWithin n (bool b) := ⟨rfl, Nat.zero_le n⟩

theorem plainWithin_nat (n : Nat) {k : Nat} (h : isUnsigned64 k) : PlainWithin n (nat k) :=
  ⟨by simp [nat, isPlain, h], Nat.zero_le n⟩

theorem plainWithin_int (n : Nat) {i : Int} (h : isSigned64 i) : PlainWithin n (int i) :=
  ⟨by simp [int, isPlain, h], Nat.zero_le n⟩

theorem nestingItems_le {n : Nat} : ∀ {items : List Json}, (∀ j ∈ items, nesting j ≤ n) →
    nestingItems items ≤ n
  | [], _ => Nat.zero_le n
  | j :: _, h => Nat.max_le.2
    ⟨h j List.mem_cons_self, nestingItems_le fun i hi => h i (List.mem_cons_of_mem _ hi)⟩

theorem nestingMembers_le {n : Nat} : ∀ {members : List (String × Json)},
    (∀ m ∈ members, nesting m.2 ≤ n) → nestingMembers members ≤ n
  | [], _ => Nat.zero_le n
  | m :: _, h => Nat.max_le.2
    ⟨h m List.mem_cons_self, nestingMembers_le fun i hi => h i (List.mem_cons_of_mem _ hi)⟩

theorem plainWithin_array {n : Nat} {items : List Json} (h : ∀ j ∈ items, PlainWithin n j) :
    PlainWithin (n + 1) (array items) := by
  refine ⟨?_, ?_⟩
  · rw [isPlain, plainItems_iff]
    exact fun j hj => (h j hj).1
  · rw [nesting]
    exact Nat.succ_le_succ (nestingItems_le fun j hj => (h j hj).2)

theorem plainWithin_object {n : Nat} {members : List (String × Json)}
    (once : (members.map (·.1)).Nodup) (h : ∀ m ∈ members, PlainWithin n m.2) :
    PlainWithin (n + 1) (object members) := by
  refine ⟨?_, ?_⟩
  · rw [isPlain, Bool.and_eq_true, plainMembers_iff, decide_eq_true_eq]
    exact ⟨once, fun m hm => (h m hm).1⟩
  · rw [nesting]
    exact Nat.succ_le_succ (nestingMembers_le fun m hm => (h m hm).2)

theorem plainWithin_list {n : Nat} {write : α → Json} {as : List α}
    (h : ∀ a ∈ as, PlainWithin n (write a)) : PlainWithin (n + 1) (array (as.map write)) := by
  refine plainWithin_array fun j hj => ?_
  obtain ⟨a, ha, rfl⟩ := List.mem_map.1 hj
  exact h a ha

/-- The members that a record with fields under `names` has when each of them is set to a plain
document or left out. -/
inductive PlainFields (n : Nat) : List String → List (String × Json) → Prop where
  | nil : PlainFields n [] []
  | set {name j names members} : PlainWithin n j → PlainFields n names members →
    PlainFields n (name :: names) ((name, j) :: members)
  | skip {name names members} : PlainFields n names members →
    PlainFields n (name :: names) members

theorem PlainFields.optional {n : Nat} {name : String} {write : α → Json} {o : Option α}
    {names : List String} {members : List (String × Json)} (h : ∀ a, PlainWithin n (write a))
    (rest : PlainFields n names members) :
    PlainFields n (name :: names) (Json.optional name write o ++ members) := by
  cases o with
  | none => exact rest.skip
  | some a => exact rest.set (h a)

theorem PlainFields.sublist {n : Nat} {names : List String} {members : List (String × Json)}
    (h : PlainFields n names members) : (members.map (·.1)).Sublist names := by
  induction h with
  | nil => exact .slnil
  | set _ _ ih => exact ih.cons_cons _
  | skip _ ih => exact ih.cons _

theorem PlainFields.plainWithin {n : Nat} {names : List String} {members : List (String × Json)}
    (h : PlainFields n names members) : ∀ m ∈ members, PlainWithin n m.2 := by
  induction h with
  | nil => simp
  | set plain _ ih => simpa using ⟨plain, fun a b => ih (a, b)⟩
  | skip _ ih => exact ih

theorem plainWithin_record {n : Nat} {names : List String} {members : List (String × Json)}
    (once : names.Nodup) (h : PlainFields n names members) : PlainWithin (n + 1) (object members) :=
  plainWithin_object (h.sublist.nodup once) h.plainWithin

theorem plainWithin_strings (n : Nat) (names : List String) :
    PlainWithin (n + 1) (array (names.map string)) :=
  plainWithin_list fun s _ => plainWithin_string n s

end Json

section
open Json

theorem Parameter.plainWithin_toJson (p : Parameter) : p.toJson.PlainWithin 1 := by
  have fields : PlainFields 0 ["name", "type", "optional", "defaultValue"] _ :=
    .set (plainWithin_string 0 p.name) (.optional (o := p.type) (plainWithin_string 0)
      (.optional (o := p.isOptional) (plainWithin_bool 0)
      (.optional (o := p.defaultValue) (plainWithin_string 0) .nil)))
  simpa only [toJson, List.cons_append, List.append_assoc, List.append_nil]
    using plainWithin_record (by decide) fields

theorem FileRecord.plainWithin_toJson {f : FileRecord} (fits : f.Fits) : f.toJson.PlainWithin 1 :=
  plainWithin_record
    (by decide : ["path", "name", "extension", "size", "lastModified", "relativePath"].Nodup)
    (.set (plainWithin_string 0 _) (.set (plainWithin_string 0 _) (.set (plainWithin_string 0 _)
      (.set (plainWithin_nat 0 fits.1) (.set (plainWithin_int 0 fits.2)
      (.set (plainWithin_string 0 _) .nil))))))

theorem SymbolRecord.plainWithin_toJson {s : SymbolRecord} (fits : s.Fits) :
    s.toJson.PlainWithin 3 := by
  have parameters (ps : List Parameter) : PlainWithin 2 (.array (ps.map Parameter.toJson)) :=
    plainWithin_list fun p _ => p.plainWithin_toJson
  have fields : PlainFields 2 fieldNames _ :=
    .set (plainWithin_string 2 s.name) (.set (plainWithin_string 2 s.kind.word)
      (.set (plainWithin_string 2 s.filePath) (.set (plainWithin_nat 2 fits.1)
      (.set (plainWithin_nat 2 fits.2) (.optional (o := s.parameters) parameters
      (.optional (o := s.returnType) (plainWithin_string 2)
      (.optional (o := s.visibility) (fun v => plainWithin_string 2 v.word)
      (.optional (o := s.isStatic) (plainWithin_bool 2)
      (.optional (o := s.isAsync) (plainWithin_bool 2)
      (.optional (o := s.superclass) (plainWithin_string 2)
      (.optional (o := s.interfaces) (plainWithin_strings 1)
      (.set (plainWithin_string 2 s.signature) .nil))))))))))))
  simpa only [toJson, members, List.cons_append, List.append_assoc, List.nil_append]
    using plainWithin_record (by decide) fields

theorem RouteRecord.plainWithin_toJson {r : RouteRecord} (fits : r.Fits) :
    r.toJson.PlainWithin 2 := by
  have fields : PlainFields 1 ["path", "method", "filePath", "line", "handler", "middleware"] _ :=
    .set (plainWithin_string 1 r.path) (.set (plainWithin_string 1 r.method.word)
      (.set (plainWithin_string 1 r.filePath) (.set (plainWithin_nat 1 fits)
      (.optional (o := r.handler) (plainWithin_string 1)
      (.optional (o := r.middleware) (plainWithin_strings 0) .nil)))))
  simpa only [toJson, List.cons_append, List.append_assoc, List.nil_append, List.append_nil]
    using plainWithin_record (by decide) fields

theorem DependencyEdge.plainWithin_toJson {e : DependencyEdge} (fits : e.Fits) :
    e.toJson.PlainWithin 1 := by
  have fields : PlainFields 0 ["from", "to", "resolvedTo", "type", "filePath", "line"] _ :=
    .set (plainWithin_string 0 e.source) (.set (plainWithin_string 0 e.specifier)
      (.optional (o := e.resolved) (plainWithin_string 0)
      (.set (plainWithin_string 0 e.kind.word) (.set (plainWithin_string 0 e.filePath)
      (.set (plainWithin_nat 0 fits) .nil)))))
  simpa only [toJson, List.cons_append, List.append_assoc, List.nil_append]
    using plainWithin_record (by decide) fields

end

/-! ### Snapshots -/

/-- Every record of the snapshot fits, and so does its time. -/
structure Snapshot.Fits (s : Snapshot) : Prop where
  files : ∀ e ∈ s.files, e.2.Fits
  symbols : ∀ e ∈ s.symbols, ∀ r ∈ e.2, r.Fits
  routes : ∀ e ∈ s.routes, ∀ r ∈ e.2, r.Fits
  dependencies : ∀ e ∈ s.dependencies, ∀ r ∈ e.2, r.Fits
  lastIndexed : isSigned64 s.lastIndexed

namespace Snapshot

theorem pairs?_pairs {write : α → Json} {read : Json → Option α} {entries : List (String × α)}
    (reads : ∀ e ∈ entries, read (write e.2) = some e.2) :
    pairs? read (pairs write entries) = some entries :=
  Json.list?_array fun e he => Json.twoOf?_pair (Json.string?_string e.1) (reads e he)

theorem plainWithin_pairs {n : Nat} {write : α → Json} {entries : List (String × α)}
    (plain : ∀ e ∈ entries, (write e.2).PlainWithin n) :
    (pairs write entries).PlainWithin (n + 2) := by
  refine Json.plainWithin_list fun e he => Json.plainWithin_array fun j hj => ?_
  simp only [List.mem_cons, List.not_mem_nil, or_false] at hj
  rcases hj with rfl | rfl
  · exact Json.plainWithin_string n e.1
  · exact plain e he

theorem ofJson?_object {fs : List (String × Json)} {s : Snapshot}
    (files : Json.required fs "files" (pairs? FileRecord.ofJson?) = some s.files)
    (symbols : Json.required fs "symbols" (pairs? (Json.list? SymbolRecord.ofJson?)) = some s.symbols)
    (routes : Json.required fs "routes" (pairs? (Json.list? RouteRecord.ofJson?)) = some s.routes)
    (dependencies : Json.required fs "dependencies" (pairs? (Json.list? DependencyEdge.ofJson?)) =
      some s.dependencies)
    (lastIndexed : Json.required fs "lastIndexed" Json.int? = some s.lastIndexed) :
    ofJson? (.object fs) = some s := by
  rw [ofJson?, Json.bind_eq (Json.fields?_object _ _ fs), Json.bind_eq files, Json.bind_eq symbols,
    Json.bind_eq routes, Json.bind_eq dependencies, Json.bind_eq lastIndexed]
  rfl

/-- A snapshot that fits is read back from its document. -/
theorem ofJson?_toJson {s : Snapshot} (fits : s.Fits) : ofJson? s.toJson = some s := by
  refine ofJson?_object
    (Json.required_eq (j := pairs FileRecord.toJson s.files) ?_
      (pairs?_pairs fun e he => FileRecord.ofJson?_toJson (fits.files e he)))
    (Json.required_eq (j := pairs (fun l => .array (l.map SymbolRecord.toJson)) s.symbols) ?_
      (pairs?_pairs fun e he => Json.list?_array fun r hr =>
        SymbolRecord.ofJson?_toJson (fits.symbols e he r hr)))
    (Json.required_eq (j := pairs (fun l => .array (l.map RouteRecord.toJson)) s.routes) ?_
      (pairs?_pairs fun e he => Json.list?_array fun r hr =>
        RouteRecord.ofJson?_toJson (fits.routes e he r hr)))
    (Json.required_eq (j := pairs (fun l => .array (l.map DependencyEdge.toJson)) s.dependencies) ?_
      (pairs?_pairs fun e he => Json.list?_array fun r hr =>
        DependencyEdge.ofJson?_toJson (fits.dependencies e he r hr)))
    (Json.required_eq (j := .int s.lastIndexed) ?_ (Json.int?_int fits.lastIndexed)) <;>
  simp [lookup_cons_ite]

/-- The document of a snapshot that fits is plain, and six more arrays and objects may stand in one
another in it. -/
theorem plainWithin_toJson {s : Snapshot} (fits : s.Fits) : s.toJson.PlainWithin 7 := by
  have files : (pairs FileRecord.toJson s.files).PlainWithin 3 :=
    plainWithin_pairs fun e he => (FileRecord.plainWithin_toJson (fits.files e he))
  have symbols : (pairs (fun l => .array (l.map SymbolRecord.toJson)) s.symbols).PlainWithin 6 :=
    plainWithin_pairs fun e he => Json.plainWithin_list fun r hr =>
      SymbolRecord.plainWithin_toJson (fits.symbols e he r hr)
  have routes : (pairs (fun l => .array (l.map RouteRecord.toJson)) s.routes).PlainWithin 5 :=
    plainWithin_pairs fun e he => Json.plainWithin_list fun r hr =>
      RouteRecord.plainWithin_toJson (fits.routes e he r hr)
  have dependencies :
      (pairs (fun l => .array (l.map DependencyEdge.toJson)) s.dependencies).PlainWithin 4 :=
    plainWithin_pairs fun e he => Json.plainWithin_list fun r hr =>
      DependencyEdge.plainWithin_toJson (fits.dependencies e he r hr)
  exact Json.plainWithin_record
    (by decide : ["files", "symbols", "routes", "dependencies", "lastIndexed"].Nodup)
    (.set (files.mono (by decide)) (.set symbols (.set (routes.mono (by decide))
      (.set (dependencies.mono (by decide)) (.set (Json.plainWithin_int 6 fits.lastIndexed) .nil)))))

end Snapshot

end SourceAtlas
