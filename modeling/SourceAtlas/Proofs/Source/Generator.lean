import SourceAtlas.Proofs.Source.ClassBody
import SourceAtlas.Proofs.Source.Form
/-!
Generators in a class. A line that begins with an asterisk is taken for one of a comment, and so is the
header of a generator: it is no method, and the brace that it opens is not counted. Its body is read as
if it stood directly in the class, and the brace that closes it closes the class. So the members in
front of a generator are found, and no member from it on.
-/

namespace SourceAtlas

namespace Source

/-- The member as a generator. -/
def Member.generator (m : Member) : Member :=
  { m with header := m.header.takeWhile Text.isBlank ++ '*' :: Text.trimStart m.header }

variable {n : Nesting} {text : List Char} {base : Nat} {resolver : Resolver} {path : String}
  {number : Nat}

/-! ### Comments -/

/-- The header of a generator passes for a comment, -/
theorem Member.isComment_generator (m : Member) (path : String) (number : Nat) :
    (⟨path, number, m.generator.header⟩ : SourceLine).isComment := by
  have front : ∀ c ∈ m.header.takeWhile Text.isBlank, Text.isBlank c :=
    List.all_eq_true.1 List.all_takeWhile
  have mark : Text.trimStart m.generator.header = '*' :: Text.trimStart m.header := by
    rw [generator, Text.trimStart, List.dropWhile_append_of_pos front,
      List.dropWhile_cons_of_neg (by decide)]
  rw [SourceLine.isComment, mark]
  rfl

/-- and a comment changes nothing and has no records. -/
theorem behind_of_comment (h : (⟨"", 0, text⟩ : SourceLine).isComment) : n.behind text = n := by
  rw [Nesting.behind, h]
  rfl

theorem SourceLine.extract_of_comment {l : SourceLine} (h : l.isComment) (resolver : Resolver)
    (n : Nesting) : (l.extract resolver n).1 = {} := by
  rw [extract, if_pos h]

/-! ### A body read one brace too low -/

theorem depthBehind_succ {depth : Nat} (deep : 0 < depthBehind (depth + 1) text) :
    depthBehind (depth + 1) text = depthBehind depth text + 1 := by
  rw [depthBehind] at deep ⊢
  rw [depthBehind]
  split
  · rfl
  · rename_i code
    rw [if_neg code] at deep
    omega

/-- Lines that stay at a depth stay one brace lower when they are read from one brace lower. -/
theorem staysAt_pred {bound depth : Nat} {body : List (List Char)}
    (h : staysAt (bound + 1) (depth + 1) body) :
    staysAt bound depth body ∧ depthBehindLines (depth + 1) body = depthBehindLines depth body + 1 := by
  induction body generalizing depth with
  | nil => exact ⟨rfl, rfl⟩
  | cons text body ih =>
    rw [staysAt, Bool.and_eq_true, decide_eq_true_eq] at h
    obtain ⟨here, later⟩ := h
    have lower := depthBehind_succ (Nat.lt_of_lt_of_le (Nat.succ_pos _) here)
    rw [lower] at here later
    obtain ⟨stays, depth⟩ := ih later
    refine ⟨?_, ?_⟩
    · rw [staysAt, Bool.and_eq_true, decide_eq_true_eq]
      exact ⟨Nat.le_of_succ_le_succ here, stays⟩
    · rw [depthBehindLines, List.foldl_cons, lower]
      exact depth

/-! ### Outside of classes -/

theorem dropUnopened_outside (h : n.classes = []) : n.dropUnopened = n := by
  rw [Nesting.dropUnopened, h]

theorem nestingWithin_outside {l : SourceLine} (h : n.classes = []) (plain : l.class? = none) :
    l.nestingWithin n = n := by
  rw [SourceLine.nestingWithin, plain, dropUnopened_outside h]
  simp

theorem classes_behind_outside (h : n.classes = []) (plain : classRule.match? text = none) :
    (n.behind text).classes = [] := by
  rw [Nesting.behind]
  split
  · exact h
  · rw [nestingWithin_outside h (class?_eq_none plain), Nesting.advance]
    simp only [dropUnopened_outside h, ite_self, h]
    rfl

/-- Where no class is open and none is declared, there are no methods. -/
theorem methods_outside {lines : List (List Char)} (h : n.classes = [])
    (plain : ∀ text ∈ lines, classRule.match? text = none) :
    (extractLines resolver path number n lines).methods = [] := by
  induction lines generalizing number n with
  | nil => rfl
  | cons text lines ih =>
    have ofText := plain text List.mem_cons_self
    have here : ((⟨path, number, text⟩ : SourceLine).extract resolver n).1.methods = [] := by
      rw [methods_extract, nestingWithin_outside h (class?_eq_none ofText), SourceLine.methodWithin,
        Nesting.inBody, h]
      simp
    rw [methods_extractLines_cons, here,
      ih (classes_behind_outside h ofText) fun t mem => plain t (List.mem_cons_of_mem _ mem)]
    rfl

/-! ### Generators -/

/-- The nesting directly in the body of a class that stands in no other one. -/
def bodyAt (base : Nat) : Nesting := ⟨base, [⟨base, true⟩]⟩

theorem innermost_bodyAt (base : Nat) : Innermost base (bodyAt base) := rfl

/-- A brace that is closed there leaves the class. -/
theorem ClosesBrace.classes_behind (h : ClosesBrace text) (inside : 0 < base) :
    ((bodyAt base).behind text).classes = [] := by
  have inner := innermost_bodyAt base
  have left : ¬base ≤ base - 1 := by omega
  rw [Nesting.behind, h.code, inner.nestingWithin (class?_eq_none h.plain), Nesting.advance]
  simp only [inner.dropUnopened, ite_self, h.countBraces]
  simp [bodyAt, Nesting.settle, left]

namespace Member

variable {m : Member} {front back : List Member}

theorem AllStand.stands_of_mem {members : List Member} (h : AllStand base members)
    (mem : m ∈ members) : ∃ depth, m.Stands depth := by
  induction members generalizing base with
  | nil => cases mem
  | cons first rest ih =>
    rcases List.mem_cons.1 mem with rfl | mem
    · exact ⟨base, h.1⟩
    · exact ih h.2 mem

theorem AllStand.plain {members : List Member} (h : AllStand base members) :
    ∀ text ∈ members.flatMap lines, classRule.match? text = none := by
  intro text mem
  obtain ⟨m, among, mem⟩ := List.mem_flatMap.1 mem
  obtain ⟨_, stands⟩ := h.stands_of_mem among
  rw [lines, List.mem_cons, List.mem_append, List.mem_singleton] at mem
  rcases mem with rfl | mem | rfl
  · exact stands.header.plain
  · exact stands.plain text mem
  · exact stands.closing.plain

/-- Without the brace of its header, the body of a member that returns leads back to the body of the
class. -/
theorem Stands.behindLines_body (h : m.Stands base)
    (returns : depthBehindLines base m.lines = base) :
    (bodyAt base).behindLines m.body = bodyAt base := by
  -- with the brace the body ends one deeper, and the closing line takes that back
  obtain ⟨stays, lower⟩ := staysAt_pred h.stays
  have closed := h.closing.depthBehind (depthBehindLines (base + 1) m.body)
  rw [lines, depthBehindLines, List.foldl_cons, List.foldl_append,
    depthBehind_of_opensBrace h.header.code h.header.brace] at returns
  have same := closed.symm.trans returns
  have depth : ((bodyAt base).behindLines m.body).depth = base := by
    have start : depthBehindLines (bodyAt base).depth m.body = depthBehindLines base m.body := rfl
    rw [depth_behindLines, start]
    omega
  exact congrArg₂ Nesting.mk depth ((innermost_bodyAt base).classes_behindLines h.plain stays)

theorem lines_generator (m : Member) :
    m.generator.lines = m.generator.header :: (m.body ++ [m.closing]) := rfl

/-- No method is found behind a generator: if another member follows, its closing line has left the
class. -/
theorem AllStand.methods_behind_generator {closing : List Char} (h : AllStand base (m :: back))
    (returns : AllReturn base (m :: back)) (inside : 0 < base) (closes : ClosesBrace closing) :
    (extractLines resolver path number (((bodyAt base).behindLines m.body).behind m.closing)
      (back.flatMap lines ++ [closing])).methods = [] := by
  cases back with
  | nil =>
    rw [List.flatMap_nil, List.nil_append, methods_extractLines_cons, closes.methods]
    rfl
  | cons next back =>
    rw [h.1.behindLines_body (returns.1 (List.cons_ne_nil _ _))]
    refine methods_outside (h.1.closing.classes_behind inside) fun text mem => ?_
    rcases List.mem_append.1 mem with mem | mem
    · exact h.2.plain text mem
    · exact List.mem_singleton.1 mem ▸ closes.plain

/-- So the methods from a generator on are those that are found in its body, read as a part of the
class. -/
theorem AllStand.methods_generator {closing : List Char} (h : AllStand base (m :: back))
    (returns : AllReturn base (m :: back)) (inside : 0 < base) (closes : ClosesBrace closing) :
    (extractLines resolver path number (bodyAt base)
        ((m.generator :: back).flatMap lines ++ [closing])).methods =
      (extractLines resolver path (number + 1) (bodyAt base) m.body).methods := by
  have comment := m.isComment_generator path number
  rw [List.flatMap_cons, lines_generator, List.cons_append, List.cons_append,
    methods_extractLines_cons, SourceLine.extract_of_comment comment,
    behind_of_comment (m.isComment_generator "" 0), List.append_assoc, List.append_assoc,
    methods_extractLines_append, List.singleton_append, methods_extractLines_cons,
    h.1.closing.methods, h.methods_behind_generator returns inside closes]
  exact List.append_nil _

/-- The members in front of a generator are methods, too. -/
theorem AllStand.methods_withGenerator {closing : List Char} (h : AllStand base (front ++ m :: back))
    (returns : AllReturn base (front ++ m :: back)) (inside : 0 < base)
    (closes : ClosesBrace closing) :
    (extractLines resolver path number (bodyAt base)
        ((front ++ m.generator :: back).flatMap lines ++ [closing])).methods =
      places number front ++
        (extractLines resolver path (number + (front.flatMap lines).length + 1) (bodyAt base)
          m.body).methods := by
  induction front generalizing number with
  | nil => exact h.methods_generator returns inside closes
  | cons first front ih =>
    have inner := innermost_bodyAt base
    have back := returns.1 (List.append_ne_nil_of_right_ne_nil _ (List.cons_ne_nil _ _))
    have later := h.2
    have others := returns.2
    rw [back] at later others
    rw [List.cons_append, List.flatMap_cons, List.append_assoc, methods_extractLines_append,
      h.1.methods inner rfl, h.1.behindLines inner rfl back, ih later others, places,
      List.flatMap_cons, List.length_append, Nat.add_assoc number]
    rfl

end Member

/-! ### The class -/

/-- The first line of a class that stands in no other one leads directly into its body. -/
theorem ClassBlock.Stands.behind_opening {b : ClassBlock} {depth : Nat} (h : b.Stands depth) :
    (⟨depth, []⟩ : Nesting).behind b.opening = bodyAt (depth + 1) := by
  obtain ⟨m, found⟩ := Option.isSome_iff_exists.1 h.declared
  have code : (⟨"", 0, b.opening⟩ : SourceLine).isComment = false := SourceLine.code_of_class found
  have brace := h.brace
  rw [OpensBrace] at brace
  have within := h.nestingWithin (n := ⟨depth, []⟩) "" 0
  have one : depth + ((countBraces none b.opening).closed + 1) -
      (countBraces none b.opening).closed = depth + 1 := by omega
  rw [Nesting.behind, code, within, Nesting.advance, brace]
  simp [Nesting.dropUnopened, Nesting.enter, Nesting.settle, bodyAt, one]

/-- The header of a method declares nothing else. -/
theorem OpensMethod.declared (h : OpensMethod text) :
    (⟨path, number, text⟩ : SourceLine).declared = [] := by
  obtain ⟨_, _, parameters, _⟩ := h.found
  obtain ⟨m, found, _⟩ := Option.map_eq_some_iff.1 parameters
  exact SourceLine.declared_of_method found h.noFunction

/-- A line that declares nothing, methods apart, may be a comment as well. -/
theorem symbols_of_comment {comment : List Char} (before after : List (List Char))
    (nothing : (⟨path, number + before.length, text⟩ : SourceLine).declared = [])
    (starred : (⟨path, number + before.length, comment⟩ : SourceLine).isComment) :
    (extractLines resolver path number n (before ++ comment :: after)).withoutMethods.symbols =
      (extractLines resolver path number n (before ++ text :: after)).withoutMethods.symbols := by
  have parts : ∀ line,
      (extractLines resolver path number n (before ++ line :: after)).withoutMethods =
        (extractLines resolver path number n before).withoutMethods.append
          (((⟨path, number + before.length, line⟩ : SourceLine).freeRecords resolver).append
            (extractLines resolver path (number + before.length + 1) n after).withoutMethods) := by
    intro line
    rw [extractLines_append, extractLines_cons, Extraction.withoutMethods_append,
      Extraction.withoutMethods_append, SourceLine.withoutMethods_extract,
      withoutMethods_extractLines after _ _ n]
  have own :
      ((⟨path, number + before.length, text⟩ : SourceLine).freeRecords resolver).symbols = [] := by
    rw [SourceLine.freeRecords]
    split
    · rfl
    · exact nothing
  rw [parts, parts, SourceLine.freeRecords, if_pos starred]
  simp only [Extraction.append, own]

theorem ClassBlock.lines_eq (opening closing : List Char) (front back : List Member) (m : Member) :
    (⟨opening, front ++ m :: back, closing⟩ : ClassBlock).lines =
      (opening :: front.flatMap Member.lines) ++
        m.header :: (m.body ++ m.closing :: (back.flatMap Member.lines ++ [closing])) := by
  simp [lines, Member.lines]

/-- A class whose members are all found, and the same class with one of them as a generator. In both
the other symbols are the same. But with the generator the methods are the members in front of it, and
what is read as a method in its body. -/
theorem methods_of_generator (resolver : Resolver) (path : String) {content starred : String}
    {opening closing : List Char} {front back : List Member} {m : Member}
    (text : Text.lines content.toList = (⟨opening, front ++ m :: back, closing⟩ : ClassBlock).lines)
    (text' : Text.lines starred.toList =
      (⟨opening, front ++ m.generator :: back, closing⟩ : ClassBlock).lines)
    (stands : (⟨opening, front ++ m :: back, closing⟩ : ClassBlock).Stands 0)
    (returns : Member.AllReturn 1 (front ++ m :: back)) :
    (extract resolver starred path).withoutMethods.symbols =
        (extract resolver content path).withoutMethods.symbols ∧
      (extract resolver content path).methods = Member.places 2 (front ++ m :: back) ∧
      (extract resolver starred path).methods = Member.places 2 front ++
        (extractLines resolver path (2 + (front.flatMap Member.lines).length + 1) (bodyAt 1)
          m.body).methods := by
  have members : Member.AllStand 1 (front ++ m :: back) := stands.members
  refine ⟨?_, ?_, ?_⟩
  · obtain ⟨_, ofMember⟩ := members.stands_of_mem (List.mem_append_right front List.mem_cons_self)
    rw [extract, extract, text, text', ClassBlock.lines_eq, ClassBlock.lines_eq]
    exact symbols_of_comment _ _ ofMember.header.declared (m.isComment_generator _ _)
  · rw [extract, text, stands.methods returns]
  · have first : ((⟨path, 1, opening⟩ : SourceLine).extract resolver {}).1.methods = [] :=
      stands.methods_opening (n := {})
    have inBody : Nesting.behind {} opening = bodyAt 1 := stands.behind_opening
    rw [extract, text', ClassBlock.lines, methods_extractLines_cons, first, inBody, List.nil_append]
    exact members.methods_withGenerator returns Nat.one_pos stands.closing

/-- A method with a call in its body. -/
def callMember : Member := ⟨"  one() \x7b".toList, ["    step(1);".toList], "  \x7d".toList⟩

theorem stands_callMember : callMember.Stands 1 where
  header := ⟨by decide +kernel, ⟨[], " \x7b".toList, by decide +kernel⟩, by decide +kernel,
    by decide +kernel, by decide +kernel⟩
  plain := by decide +kernel
  stays := by decide +kernel
  closing := by decide +kernel

/-- A class with three members, the one in the middle as it is given. -/
def classAround (m : Member) : ClassBlock :=
  ⟨"class A \x7b".toList, [bareMember] ++ m :: [bareMember], ['\x7d']⟩

theorem methods_of_generator_sample :
    let content := String.ofList (Text.ofLines (classAround callMember).lines)
    let starred := String.ofList (Text.ofLines (classAround callMember.generator).lines)
    Text.lines content.toList = (classAround callMember).lines ∧
      Text.lines starred.toList = (classAround callMember.generator).lines ∧
      (classAround callMember).Stands 0 ∧ Member.AllReturn 1 (classAround callMember).members ∧
      (extract {} starred "/a.ts").withoutMethods.symbols =
        (extract {} content "/a.ts").withoutMethods.symbols ∧
      (extract {} content "/a.ts").methods = [(2, "bar"), (4, "one"), (7, "bar")] ∧
      (extract {} starred "/a.ts").methods = [(2, "bar"), (5, "step")] := by
  intro content starred
  have text : Text.lines content.toList = (classAround callMember).lines := by
    rw [String.toList_ofList]
    exact Text.lines_ofLines (by decide +kernel)
  have text' : Text.lines starred.toList = (classAround callMember.generator).lines := by
    rw [String.toList_ofList]
    exact Text.lines_ofLines (by decide +kernel)
  have back : depthBehindLines 1 bareMember.lines = 1 := by decide +kernel
  have stands : (classAround callMember).Stands 0 :=
    ⟨by decide +kernel, by decide +kernel, ⟨stands_bareMember _, back.symm ▸ stands_callMember,
      stands_bareMember _, trivial⟩, by decide +kernel⟩
  have returns : Member.AllReturn 1 (classAround callMember).members :=
    ⟨fun _ => by decide +kernel, fun _ => by decide +kernel, fun _ => by decide +kernel, trivial⟩
  obtain ⟨others, plain, lost⟩ := methods_of_generator {} "/a.ts" text text' stands returns
  refine ⟨text, text', stands, returns, others, plain.trans (by decide +kernel), lost.trans ?_⟩
  decide +kernel

/-- The header of a generator reads as a method. But neither it nor the member behind it is found. -/
theorem generator_not_found :
    let content := String.ofList (Text.ofLines (classAround bareMember).lines)
    let starred := String.ofList (Text.ofLines (classAround bareMember.generator).lines)
    let outline (x : Extraction) := x.symbols.map fun s => (s.kind, s.name, s.line)
    methodName bareMember.generator.header = "bar" ∧
      outline (extract {} content "/a.ts") =
        [(.classType, "A", 1), (.method, "bar", 2), (.method, "bar", 4), (.method, "bar", 6)] ∧
      outline (extract {} starred "/a.ts") = [(.classType, "A", 1), (.method, "bar", 2)] := by
  intro content starred outline
  have text : Text.lines content.toList = (classAround bareMember).lines := by
    rw [String.toList_ofList]
    exact Text.lines_ofLines (by decide +kernel)
  have text' : Text.lines starred.toList = (classAround bareMember.generator).lines := by
    rw [String.toList_ofList]
    exact Text.lines_ofLines (by decide +kernel)
  refine ⟨by decide +kernel, ?_, ?_⟩
  · show ((extract {} content "/a.ts").symbols.map fun s => (s.kind, s.name, s.line)) = _
    rw [extract, text]
    decide +kernel
  · show ((extract {} starred "/a.ts").symbols.map fun s => (s.kind, s.name, s.line)) = _
    rw [extract, text']
    decide +kernel

end Source

end SourceAtlas
