import SourceAtlas.Proofs.Source.Bracket
import SourceAtlas.Proofs.Source.Lines
import SourceAtlas.Proofs.Source.Rule
/-!
The methods of a class. Between the line that opens a class and its last one, the class stays the
innermost one as long as no other class is declared and the depth does not fall below that of its
body. So a line that stands at this depth may be a method and a deeper one is none; where each member
but the last ends at the depth at which it began, the methods are the members.
-/

namespace SourceAtlas

/-- The methods among the symbols, each with its line and its name. -/
def Extraction.methods (x : Extraction) : List (Nat × String) :=
  (x.symbols.filter (·.kind = .method)).map fun s => (s.line, s.name)

/-- The methods on the lines from one to another. -/
def Extraction.methodsWithin (first last : Nat) (x : Extraction) : List (Nat × String) :=
  x.methods.filter fun m => first ≤ m.1 ∧ m.1 ≤ last

theorem Extraction.methods_append (x y : Extraction) :
    (x.append y).methods = x.methods ++ y.methods := by
  simp [methods, append]

theorem Extraction.methodsWithin_append (first last : Nat) (x y : Extraction) :
    (x.append y).methodsWithin first last = x.methodsWithin first last ++ y.methodsWithin first last := by
  rw [methodsWithin, methods_append, List.filter_append]
  rfl

namespace Source

/-! ### The running depth -/

/-- The depth behind a line. A comment counts for nothing. -/
def depthBehind (depth : Nat) (text : List Char) : Nat :=
  if SourceLine.isComment ⟨"", 0, text⟩ then depth
  else depth + (countBraces none text).opened - (countBraces none text).closed

/-- The depth behind lines. -/
def depthBehindLines (depth : Nat) (lines : List (List Char)) : Nat := lines.foldl depthBehind depth

/-- The depth behind each of the lines is at least the bound. -/
def staysAt (bound : Nat) : (depth : Nat) → List (List Char) → Bool
  | _, [] => true
  | depth, text :: rest => bound ≤ depthBehind depth text && staysAt bound (depthBehind depth text) rest

variable {n : Nesting} {text : List Char} {base : Nat}

theorem depth_dropUnopened (n : Nesting) : n.dropUnopened.depth = n.depth := by
  rw [Nesting.dropUnopened]
  split
  · split <;> rfl
  · rfl

theorem depth_nestingWithin (l : SourceLine) (n : Nesting) : (l.nestingWithin n).depth = n.depth := by
  rw [SourceLine.nestingWithin]
  split
  · exact depth_dropUnopened n
  · split
    · exact depth_dropUnopened n
    · rfl

theorem depth_behind (n : Nesting) (text : List Char) :
    (n.behind text).depth = depthBehind n.depth text := by
  have kept : ∀ (m : Nesting) (ended : Bool),
      (if ended then m.dropUnopened else m).depth = m.depth := by
    intro m ended
    split
    · exact depth_dropUnopened m
    · rfl
  rw [Nesting.behind, depthBehind]
  split
  · rfl
  · rw [Nesting.advance]
    simp only [kept, depth_nestingWithin]

theorem depth_behindLines (n : Nesting) (lines : List (List Char)) :
    (n.behindLines lines).depth = depthBehindLines n.depth lines := by
  induction lines generalizing n with
  | nil => rfl
  | cons text lines ih =>
    have rest := ih (n.behind text)
    rw [depth_behind] at rest
    exact rest

theorem staysAt_cons {bound : Nat} {rest : List (List Char)} (h : staysAt bound n.depth (text :: rest)) :
    bound ≤ (n.behind text).depth ∧ staysAt bound (n.behind text).depth rest := by
  rw [staysAt, Bool.and_eq_true, decide_eq_true_eq, ← depth_behind] at h
  exact h

theorem staysAt_mono {low high depth : Nat} (order : low ≤ high) {body : List (List Char)}
    (h : staysAt high depth body) : staysAt low depth body := by
  induction body generalizing depth with
  | nil => rfl
  | cons text body ih =>
    rw [staysAt, Bool.and_eq_true, decide_eq_true_eq] at h ⊢
    exact ⟨Nat.le_trans order h.1, ih h.2⟩

theorem le_depthBehindLines {bound depth : Nat} {lines : List (List Char)} (start : bound ≤ depth)
    (stays : staysAt bound depth lines) : bound ≤ depthBehindLines depth lines := by
  induction lines generalizing depth with
  | nil => exact start
  | cons text lines ih =>
    rw [staysAt, Bool.and_eq_true, decide_eq_true_eq] at stays
    exact ih stays.1 stays.2

/-! ### Inside a class -/

/-- The innermost class has its body at this depth, and has opened it. -/
def Innermost (base : Nat) (n : Nesting) : Prop := n.classes.head? = some ⟨base, true⟩

theorem Innermost.dropUnopened (h : Innermost base n) : n.dropUnopened = n := by
  rw [Innermost] at h
  rw [Nesting.dropUnopened]
  split
  · rename_i body rest classes
    rw [classes] at h
    rw [if_pos (by rw [Option.some.inj h])]
  · rfl

theorem Innermost.inBody (h : Innermost base n) : n.inBody = (base == n.depth) := by
  rw [Innermost] at h
  rw [Nesting.inBody]
  split
  · rename_i body rest classes
    rw [classes] at h
    rw [Option.some.inj h]
    rfl
  · rename_i classes
    rw [classes] at h
    cases h

theorem Innermost.nestingWithin {l : SourceLine} (h : Innermost base n) (plain : l.class? = none) :
    l.nestingWithin n = n := by
  rw [SourceLine.nestingWithin, plain, h.dropUnopened]
  simp

theorem class?_eq_none {l : SourceLine} (h : classRule.match? l.text = none) : l.class? = none := by
  rw [SourceLine.class?, h]
  rfl

theorem head?_settle {depth : Nat} {opens opened : Bool} {classes : List ClassBody}
    (h : classes.head? = some ⟨base, opened⟩) (deep : base ≤ depth) :
    (Nesting.settle depth opens classes).head? = some ⟨base, true⟩ := by
  cases classes with
  | nil => cases h
  | cons body rest =>
    obtain rfl := Option.some.inj h
    rw [Nesting.settle, if_pos deep]
    rfl

theorem settle_eq_self {depth : Nat} {opens : Bool} {classes : List ClassBody}
    (h : classes.head? = some ⟨base, true⟩) (deep : base ≤ depth) :
    Nesting.settle depth opens classes = classes := by
  cases classes with
  | nil => cases h
  | cons body rest =>
    obtain rfl := Option.some.inj h
    rw [Nesting.settle, if_pos deep]

/-- Behind a line that declares no class and does not leave the innermost one, the classes are the
same, -/
theorem Innermost.classes_behind (h : Innermost base n) (plain : classRule.match? text = none)
    (deep : base ≤ (n.behind text).depth) : (n.behind text).classes = n.classes := by
  rw [Nesting.behind] at deep ⊢
  split at deep
  · rename_i comment
    rw [if_pos comment]
  · rename_i code
    rw [if_neg code]
    rw [h.nestingWithin (class?_eq_none plain)] at deep ⊢
    rw [Nesting.advance] at deep ⊢
    simp only [h.dropUnopened, ite_self] at deep ⊢
    exact settle_eq_self h deep

/-- and the innermost is still the innermost. -/
theorem Innermost.behind (h : Innermost base n) (plain : classRule.match? text = none)
    (deep : base ≤ (n.behind text).depth) : Innermost base (n.behind text) := by
  rw [Innermost, h.classes_behind plain deep]
  exact h

/-! ### The methods of lines -/

variable {resolver : Resolver} {path : String} {number : Nat}

theorem methods_extract (l : SourceLine) (resolver : Resolver) (n : Nesting) :
    (l.extract resolver n).1.methods =
      if l.isComment then []
      else (l.methodWithin (l.nestingWithin n)).map fun s => (s.line, s.name) := by
  have free : l.declared.filter (·.kind = .method) = [] :=
    List.filter_eq_nil_iff.2 fun s mem => by simpa using SourceLine.kind_declared mem
  have own : (l.methodWithin (l.nestingWithin n)).filter (·.kind = .method) =
      l.methodWithin (l.nestingWithin n) :=
    List.filter_eq_self.2 fun s mem => by simpa using SourceLine.kind_methodWithin mem
  rw [SourceLine.extract]
  split
  · rfl
  · rw [Extraction.methods, List.filter_append, free, own, List.nil_append]

/-- Where no class is declared, only a line at the depth of the class body can be a method. -/
theorem methods_of_deeper (h : Innermost base n) (plain : classRule.match? text = none)
    (deeper : base < n.depth) :
    ((⟨path, number, text⟩ : SourceLine).extract resolver n).1.methods = [] := by
  have outside : (base == n.depth) = false := by
    rw [beq_eq_false_iff_ne]
    omega
  rw [methods_extract, h.nestingWithin (class?_eq_none plain), SourceLine.methodWithin, h.inBody, outside]
  simp

theorem methods_extractLines_cons (text : List Char) (rest : List (List Char)) :
    (extractLines resolver path number n (text :: rest)).methods =
      ((⟨path, number, text⟩ : SourceLine).extract resolver n).1.methods ++
        (extractLines resolver path (number + 1) (n.behind text) rest).methods := by
  rw [extractLines_cons, Extraction.methods_append]

theorem methods_extractLines_append (first second : List (List Char)) :
    (extractLines resolver path number n (first ++ second)).methods =
      (extractLines resolver path number n first).methods ++
        (extractLines resolver path (number + first.length) (n.behindLines first) second).methods := by
  rw [extractLines_append, Extraction.methods_append]

/-- Lines that stay as deep as the body of a class leave the classes as they were. -/
theorem Innermost.classes_behindLines {body : List (List Char)} (h : Innermost base n)
    (plain : ∀ text ∈ body, classRule.match? text = none) (stays : staysAt base n.depth body) :
    (n.behindLines body).classes = n.classes := by
  induction body generalizing n with
  | nil => rfl
  | cons text body ih =>
    obtain ⟨here, later⟩ := staysAt_cons stays
    have ofText := plain text List.mem_cons_self
    have rest := ih (h.behind ofText here) (fun t mem => plain t (List.mem_cons_of_mem _ mem)) later
    rw [h.classes_behind ofText here] at rest
    exact rest

/-- Behind lines that stay deeper than the body of a class, the class is still the innermost. -/
theorem Innermost.behindLines {body : List (List Char)} (h : Innermost base n) (deeper : base < n.depth)
    (plain : ∀ text ∈ body, classRule.match? text = none) (stays : staysAt (base + 1) n.depth body) :
    Innermost base (n.behindLines body) ∧ base < (n.behindLines body).depth := by
  constructor
  · rw [Innermost, h.classes_behindLines plain (staysAt_mono (Nat.le_succ base) stays)]
    exact h
  · rw [depth_behindLines]
    exact le_depthBehindLines deeper stays

/-- Such lines hold no methods. -/
theorem methods_of_body {body : List (List Char)} (h : Innermost base n) (deeper : base < n.depth)
    (plain : ∀ text ∈ body, classRule.match? text = none) (stays : staysAt (base + 1) n.depth body) :
    (extractLines resolver path number n body).methods = [] := by
  induction body generalizing number n with
  | nil => rfl
  | cons text body ih =>
    obtain ⟨here, later⟩ := staysAt_cons stays
    have ofText := plain text List.mem_cons_self
    have inner := h.behind ofText (Nat.le_of_succ_le here)
    rw [methods_extractLines_cons, methods_of_deeper h ofText deeper,
      ih inner here (fun t mem => plain t (List.mem_cons_of_mem _ mem)) later]
    rfl

/-! ### Closing lines -/

/-- The line closes a brace and holds nothing else. -/
def ClosesBrace (text : List Char) : Prop := Text.trim text = ['\x7d']

instance : Decidable (ClosesBrace text) := inferInstanceAs (Decidable (_ = _))

theorem ClosesBrace.trimStart (h : ClosesBrace text) :
    ∃ back, (∀ c ∈ back, Text.isBlank c) ∧ Text.trimStart text = '\x7d' :: back := by
  rw [ClosesBrace, Text.trim, Text.trimEnd, List.reverse_eq_iff] at h
  have whole := List.takeWhile_append_dropWhile (p := Text.isBlank) (l := (Text.trimStart text).reverse)
  rw [h, ← List.reverse_eq_iff, List.reverse_append] at whole
  refine ⟨_, fun c mem => ?_, whole.symm⟩
  exact List.all_eq_true.1 List.all_takeWhile c (List.mem_reverse.1 mem)

/-- A character that begins neither quotes nor a comment. -/
def isCode (c : Char) : Bool := !(c.toNat == 0x27 || c == '"' || c.toNat == 0x60) && c != '/'

theorem countBraces_cons {c : Char} (h : isCode c) (cs : List Char) :
    countBraces none (c :: cs) =
      if c == '\x7b' then { countBraces none cs with opened := (countBraces none cs).opened + 1 }
      else if c == '\x7d' then { countBraces none cs with closed := (countBraces none cs).closed + 1 }
      else countBraces none cs := by
  simp only [isCode, Bool.and_eq_true, Bool.not_eq_true', bne_iff_ne] at h
  rw [countBraces]
  · rw [if_neg (by simp [h.1])]
  · rintro _ rfl
    exact absurd rfl h.2

theorem countBraces_blank {c : Char} (h : Text.isBlank c) (cs : List Char) :
    countBraces none (c :: cs) = countBraces none cs := by
  have inert : (isCode c && c != '\x7b' && c != '\x7d') = true :=
    Text.of_isBlank (fun c => isCode c && c != '\x7b' && c != '\x7d') (by decide +kernel) h
  simp only [Bool.and_eq_true, bne_iff_ne] at inert
  rw [countBraces_cons inert.1.1]
  simp [inert.1.2, inert.2]

theorem countBraces_blanks {front : List Char} (blank : ∀ c ∈ front, Text.isBlank c) (t : List Char) :
    countBraces none (front ++ t) = countBraces none t := by
  induction front with
  | nil => rfl
  | cons c front ih =>
    rw [List.cons_append, countBraces_blank (blank c List.mem_cons_self),
      ih fun d mem => blank d (List.mem_cons_of_mem _ mem)]

theorem ClosesBrace.countBraces (h : ClosesBrace text) : countBraces none text = ⟨0, 1⟩ := by
  obtain ⟨back, blank, rest⟩ := h.trimStart
  have front : ∀ c ∈ text.takeWhile Text.isBlank, Text.isBlank c :=
    List.all_eq_true.1 List.all_takeWhile
  have nothing : Source.countBraces none back = {} := by
    rw [← List.append_nil back, countBraces_blanks blank]
    rfl
  rw [← List.takeWhile_append_dropWhile (p := Text.isBlank) (l := text), countBraces_blanks front]
  rw [Text.trimStart] at rest
  rw [rest, countBraces_cons (by decide), nothing]
  rfl

theorem ClosesBrace.code (h : ClosesBrace text) :
    (⟨path, number, text⟩ : SourceLine).isComment = false := by
  obtain ⟨back, _, rest⟩ := h.trimStart
  rw [SourceLine.isComment, rest]
  rfl

theorem ClosesBrace.depthBehind (h : ClosesBrace text) (depth : Nat) :
    depthBehind depth text = depth - 1 := by
  rw [Source.depthBehind, h.code, h.countBraces]
  rfl

/-- Such a line declares no class, -/
theorem ClosesBrace.plain (h : ClosesBrace text) : classRule.match? text = none := by
  obtain ⟨back, _, rest⟩ := h.trimStart
  refine Option.eq_none_iff_forall_ne_some.2 fun m found => ?_
  have names := (classText_of_match? found).beginsName
  rw [rest] at names
  cases names

/-- and is no method. -/
theorem ClosesBrace.methods (h : ClosesBrace text) :
    ((⟨path, number, text⟩ : SourceLine).extract resolver n).1.methods = [] := by
  obtain ⟨back, _, rest⟩ := h.trimStart
  have none : methodRule.match? text = none := by
    refine Option.eq_none_iff_forall_ne_some.2 fun m found => ?_
    have begins := (methodText_of_match? found).begins
    rw [rest] at begins
    rcases begins with name | mark
    · cases name
    · cases mark
  rw [methods_extract, SourceLine.methodWithin, SourceLine.method?, none]
  simp

/-! ### Members -/

/-- The line opens one brace more than it closes. -/
def OpensBrace (text : List Char) : Prop :=
  (countBraces none text).opened = (countBraces none text).closed + 1

instance : Decidable (OpensBrace text) := inferInstanceAs (Decidable (_ = _))

/-- The name of the method that a line declares. -/
def methodName (text : List Char) : String :=
  .ofList (((methodRule.match? text).map (·.group 2)).getD [])

/-- A line that opens the body of a method: behind balanced parameters stand an annotation or the body
itself. -/
structure OpensMethod (text : List Char) : Prop where
  code : (⟨"", 0, text⟩ : SourceLine).isComment = false
  found : ∃ list tail, (methodRule.match? text).map (·.rest) = some (list ++ ')' :: tail) ∧
    balances noChar 0 list ∧ opensBody tail
  free : methodName text ∉ reservedWords
  noFunction : functionWordRule.search? text = none
  brace : OpensBrace text

/-- A method as it is written in a class, with its body line by line. -/
structure Member where
  header : List Char
  body : List (List Char)
  closing : List Char
  deriving DecidableEq, Repr

namespace Member

def lines (m : Member) : List (List Char) := m.header :: (m.body ++ [m.closing])

/-- A member whose body declares no class and does not become shallower than it was opened. -/
structure Stands (m : Member) (depth : Nat) : Prop where
  header : OpensMethod m.header
  plain : ∀ text ∈ m.body, classRule.match? text = none
  stays : staysAt (depth + 1) (depth + 1) m.body
  closing : ClosesBrace m.closing

/-- Members one after the other, the first of them at a depth. -/
def AllStand : (depth : Nat) → List Member → Prop
  | _, [] => True
  | depth, m :: rest => m.Stands depth ∧ AllStand (depthBehindLines depth m.lines) rest

/-- Each member that another one follows ends at the depth at which it began. -/
def AllReturn : (depth : Nat) → List Member → Prop
  | _, [] => True
  | depth, m :: rest =>
    (rest ≠ [] → depthBehindLines depth m.lines = depth) ∧
      AllReturn (depthBehindLines depth m.lines) rest

/-- The members' names, each with the line that it stands on. -/
def places : (number : Nat) → List Member → List (Nat × String)
  | _, [] => []
  | number, m :: rest => (number, methodName m.header) :: places (number + m.lines.length) rest

end Member

theorem depthBehind_of_opensBrace (code : (⟨"", 0, text⟩ : SourceLine).isComment = false)
    (opens : OpensBrace text) (depth : Nat) : depthBehind depth text = depth + 1 := by
  rw [depthBehind, code, opens]
  simp only [Bool.false_eq_true, if_false]
  omega

/-- Such a line declares no class. -/
theorem OpensMethod.plain (h : OpensMethod text) : classRule.match? text = none := by
  obtain ⟨_, _, parameters, _⟩ := h.found
  obtain ⟨m, found, _⟩ := Option.map_eq_some_iff.1 parameters
  exact classRule_eq_none found

/-- Directly in the body of a class, it is a method. -/
theorem OpensMethod.methods (h : OpensMethod text) (inner : Innermost base n) (here : n.depth = base) :
    ((⟨path, number, text⟩ : SourceLine).extract resolver n).1.methods =
      [(number, methodName text)] := by
  obtain ⟨list, tail, parameters, balanced, body⟩ := h.found
  obtain ⟨m, found, rest⟩ := Option.map_eq_some_iff.1 parameters
  have name : methodName text = .ofList (m.group 2) := by
    rw [methodName, found]
    rfl
  obtain ⟨s, method, line, named⟩ := SourceLine.method?_eq_some (l := ⟨path, number, text⟩) found
    (name ▸ h.free) rest balanced body
  have code : (⟨path, number, text⟩ : SourceLine).isComment = false := h.code
  have plain := class?_eq_none (l := ⟨path, number, text⟩) h.plain
  rw [methods_extract, code, inner.nestingWithin plain, SourceLine.methodWithin, inner.inBody, here,
    h.noFunction, method, name, ← named]
  simp [line]

namespace Member

variable {m : Member} {members : List Member}

/-- Behind the first line of a member, the class is the innermost, and the body is deeper. -/
theorem Stands.opened (h : m.Stands base) (inner : Innermost base n) (here : n.depth = base) :
    Innermost base (n.behind m.header) ∧ (n.behind m.header).depth = base + 1 := by
  have depth : (n.behind m.header).depth = base + 1 := by
    rw [depth_behind, depthBehind_of_opensBrace h.header.code h.header.brace, here]
  exact ⟨inner.behind h.header.plain (depth ▸ Nat.le_succ base), depth⟩

/-- A member in the body of a class is the one method on its lines, -/
theorem Stands.methods (h : m.Stands base) (inner : Innermost base n) (here : n.depth = base) :
    (extractLines resolver path number n m.lines).methods = [(number, methodName m.header)] := by
  obtain ⟨opened, depth⟩ := h.opened inner here
  rw [lines, methods_extractLines_cons, h.header.methods inner here, methods_extractLines_append,
    methods_of_body opened (by omega) h.plain (depth ▸ h.stays), methods_extractLines_cons,
    h.closing.methods]
  rfl

/-- and behind it, the classes are the same. -/
theorem Stands.classes (h : m.Stands base) (inner : Innermost base n) (here : n.depth = base) :
    (n.behindLines m.lines).classes = n.classes := by
  obtain ⟨opened, depth⟩ := h.opened inner here
  obtain ⟨still, deeper⟩ := opened.behindLines (by omega) h.plain (depth ▸ h.stays)
  have shallow : staysAt base (n.behind m.header).depth m.body :=
    staysAt_mono (Nat.le_succ base) (depth ▸ h.stays)
  have closes : base ≤ (((n.behind m.header).behindLines m.body).behind m.closing).depth := by
    rw [depth_behind, h.closing.depthBehind]
    omega
  rw [lines, Nesting.behindLines, List.foldl_cons, List.foldl_append]
  calc (((n.behind m.header).behindLines m.body).behind m.closing).classes
      = ((n.behind m.header).behindLines m.body).classes := still.classes_behind h.closing.plain closes
    _ = (n.behind m.header).classes := opened.classes_behindLines h.plain shallow
    _ = n.classes := inner.classes_behind h.header.plain (depth ▸ Nat.le_succ base)

/-- A member that ends at the depth at which it began leaves the nesting as it was. -/
theorem Stands.behindLines (h : m.Stands base) (inner : Innermost base n) (here : n.depth = base)
    (returns : depthBehindLines base m.lines = base) : n.behindLines m.lines = n := by
  have same : (n.behindLines m.lines).depth = n.depth := by
    rw [depth_behindLines, here, returns]
  exact congrArg₂ Nesting.mk same (h.classes inner here)

/-- Where they return to the depth of the class body, the members are the methods on their lines. -/
theorem AllStand.methods (h : AllStand base members) (returns : AllReturn base members)
    (inner : Innermost base n) (here : n.depth = base) :
    (extractLines resolver path number n (members.flatMap lines)).methods = places number members := by
  induction members generalizing number n with
  | nil => rfl
  | cons m rest ih =>
    rw [List.flatMap_cons, methods_extractLines_append, h.1.methods inner here, places,
      List.singleton_append]
    refine congrArg _ ?_
    cases rest with
    | nil => rfl
    | cons next rest =>
      have back := returns.1 (List.cons_ne_nil _ _)
      have later := h.2
      have others := returns.2
      rw [back] at later others
      rw [h.1.behindLines inner here back]
      exact ih later others inner here

end Member

/-! ### Classes -/

/-- A class as it is written, member by member. -/
structure ClassBlock where
  opening : List Char
  members : List Member
  closing : List Char
  deriving DecidableEq, Repr

namespace ClassBlock

def lines (b : ClassBlock) : List (List Char) :=
  b.opening :: (b.members.flatMap Member.lines ++ [b.closing])

/-- A class whose first line stands at a depth. -/
structure Stands (b : ClassBlock) (depth : Nat) : Prop where
  declared : (classRule.match? b.opening).isSome
  brace : OpensBrace b.opening
  members : Member.AllStand (depth + 1) b.members
  closing : ClosesBrace b.closing

variable {b : ClassBlock}

theorem Stands.nestingWithin (h : b.Stands n.depth) (path : String) (number : Nat) :
    (⟨path, number, b.opening⟩ : SourceLine).nestingWithin n = n.dropUnopened.enter := by
  obtain ⟨m, found⟩ := Option.isSome_iff_exists.1 h.declared
  rw [SourceLine.nestingWithin, SourceLine.class?, found]
  rfl

/-- The line that opens a class is no method, -/
theorem Stands.methods_opening (h : b.Stands n.depth) :
    ((⟨path, number, b.opening⟩ : SourceLine).extract resolver n).1.methods = [] := by
  rw [methods_extract, h.nestingWithin, SourceLine.methodWithin]
  simp [Nesting.enter, Nesting.inBody]

/-- and behind it, the class is the innermost, and its body begins. -/
theorem Stands.opened (h : b.Stands n.depth) :
    Innermost (n.depth + 1) (n.behind b.opening) ∧ (n.behind b.opening).depth = n.depth + 1 := by
  obtain ⟨m, found⟩ := Option.isSome_iff_exists.1 h.declared
  have code : (⟨"", 0, b.opening⟩ : SourceLine).isComment = false := SourceLine.code_of_class found
  have depth : (n.behind b.opening).depth = n.depth + 1 := by
    rw [depth_behind, depthBehind_of_opensBrace code h.brace]
  refine ⟨?_, depth⟩
  have opens : (countBraces none b.opening).opened ≠ 0 := by
    have brace := h.brace
    rw [OpensBrace] at brace
    omega
  have entered : n.dropUnopened.enter.classes.head? = some ⟨n.depth + 1, false⟩ := by
    rw [Nesting.enter, depth_dropUnopened]
    rfl
  rw [Nesting.behind, code, h.nestingWithin, Nesting.advance] at depth ⊢
  simp only [beq_eq_false_iff_ne.2 opens, Bool.false_and, Bool.false_eq_true, if_false] at depth ⊢
  exact head?_settle entered (Nat.le_of_eq depth.symm)

/-- The methods on the lines of a class are its members, wherever it stands. -/
theorem Stands.methods (h : b.Stands n.depth) (returns : Member.AllReturn (n.depth + 1) b.members) :
    (extractLines resolver path number n b.lines).methods = Member.places (number + 1) b.members := by
  obtain ⟨inner, depth⟩ := h.opened
  rw [lines, methods_extractLines_cons, h.methods_opening, List.nil_append, methods_extractLines_append,
    h.members.methods returns inner depth, methods_extractLines_cons, h.closing.methods]
  exact List.append_nil _

end ClassBlock

/-- The methods of a text stand on its lines. -/
theorem line_of_mem_methods {lines : List (List Char)} {m : Nat × String}
    (mem : m ∈ (extractLines resolver path number n lines).methods) :
    number ≤ m.1 ∧ m.1 < number + lines.length := by
  induction lines generalizing number n with
  | nil => cases mem
  | cons text lines ih =>
    rw [methods_extractLines_cons, List.mem_append] at mem
    rw [List.length_cons]
    rcases mem with here | later
    · rw [methods_extract] at here
      split at here
      · cases here
      · obtain ⟨s, method, rfl⟩ := List.mem_map.1 here
        have line : s.line = number := (SourceLine.places_methodWithin method).2.1
        simp only
        omega
    · have place := ih later
      omega

theorem methodsWithin_of_outside {lines : List (List Char)} {first last : Nat}
    (apart : number + lines.length ≤ first ∨ last < number) :
    (extractLines resolver path number n lines).methodsWithin first last = [] := by
  refine List.filter_eq_nil_iff.2 fun m mem => ?_
  have place := line_of_mem_methods mem
  rw [decide_eq_true_eq]
  omega

theorem methodsWithin_of_inside {lines : List (List Char)} {first last : Nat} (low : first ≤ number)
    (high : number + lines.length ≤ last + 1) :
    (extractLines resolver path number n lines).methodsWithin first last =
      (extractLines resolver path number n lines).methods := by
  refine List.filter_eq_self.2 fun m mem => ?_
  have place := line_of_mem_methods mem
  rw [decide_eq_true_eq]
  omega

/-- The methods that are found on the lines of a class are its members, in their order, each on its
first line. Every member but the last has to end at the depth at which it began. -/
theorem methods_of_class (resolver : Resolver) (path : String) {content : String}
    {before after : List (List Char)} {b : ClassBlock}
    (text : Text.lines content.toList = before ++ (b.lines ++ after))
    (stands : b.Stands (depthBehindLines 0 before))
    (returns : Member.AllReturn (depthBehindLines 0 before + 1) b.members) :
    (extract resolver content path).methodsWithin (before.length + 1) (before.length + b.lines.length) =
      Member.places (before.length + 2) b.members := by
  have depth := depth_behindLines {} before
  rw [← depth] at stands returns
  rw [extract, text, extractLines_append, extractLines_append, Extraction.methodsWithin_append,
    Extraction.methodsWithin_append, methodsWithin_of_outside (.inl (by omega)),
    methodsWithin_of_inside (by omega) (by omega), methodsWithin_of_outside (.inr (by omega)),
    stands.methods returns, List.nil_append, List.append_nil, Nat.add_comm 1]

/-- A method without parameters. -/
def bareMember : Member := ⟨"bar() \x7b".toList, [], ['\x7d']⟩

/-- A method with parameters, a return type, and a block in its body. -/
def typedMember : Member :=
  ⟨"  async get(key: string, size = f(1)): Promise<T> \x7b".toList,
    ["    if (key) \x7b".toList, "    \x7d".toList], "  \x7d".toList⟩

/-- A method whose body opens a block and does not close it. -/
def unclosedMember : Member :=
  ⟨"foo() \x7b".toList, ["if (x) \x7b".toList], ['\x7d']⟩

theorem stands_bareMember (depth : Nat) : bareMember.Stands depth where
  header := ⟨by decide +kernel, ⟨[], " \x7b".toList, by decide +kernel⟩, by decide +kernel,
    by decide +kernel, by decide +kernel⟩
  plain := by decide +kernel
  stays := rfl
  closing := by decide +kernel

/-- A class in a namespace. -/
def nestedClass : ClassBlock := ⟨"  class A \x7b".toList, [typedMember, bareMember], "  \x7d".toList⟩

theorem methods_of_class_sample :
    let content := String.ofList (Text.ofLines
      (["namespace N \x7b".toList] ++ (nestedClass.lines ++ ["\x7d".toList])))
    Text.lines content.toList = ["namespace N \x7b".toList] ++ (nestedClass.lines ++ ["\x7d".toList]) ∧
      nestedClass.Stands (depthBehindLines 0 ["namespace N \x7b".toList]) ∧
      Member.AllReturn (depthBehindLines 0 ["namespace N \x7b".toList] + 1) nestedClass.members ∧
      (extract {} content "/a.ts").methodsWithin 2 9 = [(3, "get"), (7, "bar")] := by
  intro content
  have text : Text.lines content.toList =
      ["namespace N \x7b".toList] ++ (nestedClass.lines ++ ["\x7d".toList]) := by
    rw [String.toList_ofList]
    exact Text.lines_ofLines (by decide +kernel)
  have typed : typedMember.Stands 2 :=
    ⟨⟨by decide +kernel, ⟨"key: string, size = f(1)".toList, ": Promise<T> \x7b".toList,
      by decide +kernel⟩, by decide +kernel, by decide +kernel, by decide +kernel⟩, by decide +kernel,
      by decide +kernel, by decide +kernel⟩
  have stands : nestedClass.Stands (depthBehindLines 0 ["namespace N \x7b".toList]) :=
    ⟨by decide +kernel, by decide +kernel, ⟨typed, stands_bareMember _, trivial⟩, by decide +kernel⟩
  have returns : Member.AllReturn (depthBehindLines 0 ["namespace N \x7b".toList] + 1)
      nestedClass.members := ⟨fun _ => by decide +kernel, fun _ => by decide +kernel, trivial⟩
  refine ⟨text, stands, returns, ?_⟩
  have methods := methods_of_class {} "/a.ts" text stands returns
  rw [show Member.places _ nestedClass.members = [(3, "get"), (7, "bar")] by decide +kernel] at methods
  exact methods

/-- A class whose first member leaves a block open. -/
def unclosedClass : ClassBlock := ⟨"class A \x7b".toList, [unclosedMember, bareMember], ['\x7d']⟩

/-- The method behind such a member is not found: it stands deeper than the body of the class. -/
theorem methods_of_unclosedClass :
    let content := String.ofList (Text.ofLines unclosedClass.lines)
    Text.lines content.toList = [] ++ (unclosedClass.lines ++ []) ∧
      unclosedClass.Stands (depthBehindLines 0 []) ∧
      (extract {} content "/a.ts").methodsWithin 1 7 = [(2, "foo")] ∧
      Member.places 2 unclosedClass.members = [(2, "foo"), (5, "bar")] := by
  intro content
  have text : Text.lines content.toList = [] ++ (unclosedClass.lines ++ []) := by
    rw [String.toList_ofList, List.append_nil, List.nil_append]
    exact Text.lines_ofLines (by decide +kernel)
  have unclosed : unclosedMember.Stands 1 :=
    ⟨⟨by decide +kernel, ⟨[], " \x7b".toList, by decide +kernel⟩, by decide +kernel,
      by decide +kernel, by decide +kernel⟩, by decide +kernel, by decide +kernel, by decide +kernel⟩
  refine ⟨text, ⟨by decide +kernel, by decide +kernel, ⟨unclosed, stands_bareMember _, trivial⟩,
    by decide +kernel⟩, ?_, by decide +kernel⟩
  rw [extract, text]
  decide +kernel

end Source

end SourceAtlas
