import Mathlib.Data.List.Induction
import SourceAtlas.Proofs.Source.ClassBody
/-!
Methods are found where the body of a class is open. Each class that is recorded was declared on a line
before, and is left when the depth falls below that of its body. It is not left where another class,
declared further down, still waits for its body: then the fall goes unnoticed until that class is
forgotten, and the next block as deep as the body is taken for it.
-/

namespace SourceAtlas

/-- The lines on which classes are declared. -/
def Extraction.classLines (x : Extraction) : List Nat :=
  (x.symbols.filter (·.kind = .classType)).map (·.line)

namespace Source

/-- The depth behind the first lines of a text. -/
def depthAt (lines : List (List Char)) (i : Nat) : Nat := depthBehindLines 0 (lines.take i)

/-- A class that was declared behind line `c` has not opened its body up to line `j`. -/
def Waits (depth : Nat → Nat) (classes : List Nat) (c j : Nat) : Prop :=
  ∃ b ∈ classes, c < b ∧ b ≤ j ∧ ∀ i, b ≤ i → i ≤ j → depth i ≤ depth (b - 1)

/-- What the lines up to `m` tell of the class on line `c`, which is recorded as `body`. Until it opens
the depth stays below that of its body; from then on it falls below only while another class waits. -/
structure Traced (depth : Nat → Nat) (classes : List Nat) (m c : Nat) (body : ClassBody) : Prop where
  declared : c ∈ classes
  base : body.depth = depth (c - 1) + 1
  waits : body.opened = false → ∀ i, c ≤ i → i ≤ m → depth i ≤ depth (c - 1)
  stays : ∀ k j, c ≤ k → depth (c - 1) < depth k → k ≤ j → j ≤ m →
    depth (c - 1) < depth j ∨ Waits depth classes c j

/-- All recorded classes but the innermost are open, and those that can become the innermost again are
traced to lines up to a limit. A class above with a body that is no deeper is only left together with
those below it. -/
structure Recorded (depth : Nat → Nat) (classes : List Nat) (limit m : Nat) (stack : List ClassBody) :
    Prop where
  opened : ∀ body ∈ stack.tail, body.opened
  traced : ∀ above body below, stack = above ++ body :: below →
    (∀ f ∈ above, f.opened → body.depth < f.depth) →
    ∃ c ≤ limit, Traced depth classes m c body ∧
      ∀ f ∈ above, f.opened = false → ∃ b ≤ limit, c < b ∧ Traced depth classes m b f

variable {depth : Nat → Nat} {classes : List Nat} {limit m c : Nat} {body : ClassBody}
  {stack : List ClassBody}

/-! ### One class from line to line -/

/-- A line as deep as the body opens it, or leaves it open. -/
theorem Traced.opens (h : Traced depth classes m c body) (deep : body.depth ≤ depth (m + 1)) :
    Traced depth classes (m + 1) c { body with opened := true } := by
  refine ⟨h.declared, h.base, nofun, fun k j first rises order last => ?_⟩
  have base := h.base
  rcases Nat.le_add_one_iff.1 last with before | rfl
  · exact h.stays k j first rises order before
  · exact .inl (by omega)

/-- A line that is less deep leaves a class waiting. -/
theorem Traced.goesOnWaiting (h : Traced depth classes m c body) (waiting : body.opened = false)
    (shallow : depth (m + 1) < body.depth) : Traced depth classes (m + 1) c body := by
  have base := h.base
  have low : ∀ i, c ≤ i → i ≤ m + 1 → depth i ≤ depth (c - 1) := by
    intro i first last
    rcases Nat.le_add_one_iff.1 last with before | rfl
    · exact h.waits waiting i first before
    · omega
  refine ⟨h.declared, h.base, fun _ => low, fun k j first rises order last => ?_⟩
  have flat := low k first (Nat.le_trans order last)
  omega

/-- While another class waits, an open one stays recorded. -/
theorem Traced.goesOnOpen (h : Traced depth classes m c body) (opened : body.opened)
    (other : Waits depth classes c (m + 1)) : Traced depth classes (m + 1) c body := by
  refine ⟨h.declared, h.base, fun waiting => ?_, fun k j first rises order last => ?_⟩
  · rw [opened] at waiting
    cases waiting
  · rcases Nat.le_add_one_iff.1 last with before | rfl
    · exact h.stays k j first rises order before
    · exact .inr other

/-- A line that leaves the depth as it was changes nothing. -/
theorem Traced.idle (h : Traced depth classes m c body) (before : c ≤ m)
    (same : depth (m + 1) = depth m) : Traced depth classes (m + 1) c body := by
  refine ⟨h.declared, h.base, fun waiting i first last => ?_, fun k j first rises order last => ?_⟩
  · rcases Nat.le_add_one_iff.1 last with old | rfl
    · exact h.waits waiting i first old
    · rw [same]
      exact h.waits waiting m before (Nat.le_refl m)
  · rcases Nat.le_add_one_iff.1 last with old | rfl
    · exact h.stays k j first rises order old
    · rcases Nat.le_add_one_iff.1 order with old | rfl
      · rw [same]
        refine (h.stays k m first rises old (Nat.le_refl m)).imp_right ?_
        rintro ⟨b, mem, behind, within, low⟩
        refine ⟨b, mem, behind, Nat.le_succ_of_le within, fun i first' last' => ?_⟩
        rcases Nat.le_add_one_iff.1 last' with old | rfl
        · exact low i first' old
        · rw [same]
          exact low m within (Nat.le_refl m)
      · exact .inl rises

/-! ### The recorded classes from line to line -/

theorem Recorded.idle (h : Recorded depth classes m m stack) (same : depth (m + 1) = depth m) :
    Recorded depth classes (m + 1) (m + 1) stack := by
  refine ⟨h.opened, fun above body below split reaches => ?_⟩
  obtain ⟨c, before, traced, others⟩ := h.traced above body below split reaches
  refine ⟨c, Nat.le_succ_of_le before, traced.idle before same, fun f mem waiting => ?_⟩
  obtain ⟨b, before', behind, traced'⟩ := others f mem waiting
  exact ⟨b, Nat.le_succ_of_le before', behind, traced'.idle before' same⟩

theorem Recorded.raise (h : Recorded depth classes limit m stack) :
    Recorded depth classes (limit + 1) m stack := by
  refine ⟨h.opened, fun above body below split reaches => ?_⟩
  obtain ⟨c, before, traced, others⟩ := h.traced above body below split reaches
  refine ⟨c, Nat.le_succ_of_le before, traced, fun f mem waiting => ?_⟩
  obtain ⟨b, before', behind, traced'⟩ := others f mem waiting
  exact ⟨b, Nat.le_succ_of_le before', behind, traced'⟩

theorem classes_dropUnopened (n : Nesting) :
    n.dropUnopened.classes = n.classes ∧ (∀ body ∈ n.classes.head?, body.opened) ∨
      ∃ body, n.classes = body :: n.dropUnopened.classes ∧ body.opened = false := by
  rw [Nesting.dropUnopened]
  split
  · rename_i body rest eq
    split
    · rename_i opened
      exact .inl ⟨rfl, by simpa [eq] using opened⟩
    · rename_i waiting
      exact .inr ⟨body, eq, by simpa using waiting⟩
  · rename_i eq
    exact .inl ⟨rfl, by simp [eq]⟩

theorem Recorded.dropUnopened {n : Nesting} (h : Recorded depth classes limit m n.classes) :
    Recorded depth classes limit m n.dropUnopened.classes ∧
      ∀ body ∈ n.dropUnopened.classes, body.opened := by
  rcases classes_dropUnopened n with ⟨same, first⟩ | ⟨body, eq, waiting⟩
  · rw [same]
    refine ⟨h, fun body mem => ?_⟩
    have rest := h.opened
    cases eq : n.classes with
    | nil =>
      rw [eq] at mem
      cases mem
    | cons top others =>
      rw [eq] at mem first rest
      rcases List.mem_cons.1 mem with rfl | mem
      · exact first _ rfl
      · exact rest _ mem
  · rw [eq] at h
    refine ⟨⟨fun other mem => h.opened other (List.mem_of_mem_tail mem), ?_⟩, h.opened⟩
    intro above other below split reaches
    obtain ⟨c, before, traced, others⟩ := h.traced (body :: above) other below (by rw [split]; rfl) (by
      intro f mem opened
      rcases List.mem_cons.1 mem with rfl | mem
      · rw [waiting] at opened
        cases opened
      · exact reaches f mem opened)
    exact ⟨c, before, traced, fun f mem => others f (List.mem_cons_of_mem _ mem)⟩

/-- A class that is declared is recorded as one that waits. -/
theorem Recorded.enter (h : Recorded depth classes m m stack) (opened : ∀ body ∈ stack, body.opened)
    (declared : m + 1 ∈ classes) :
    Recorded depth classes (m + 1) m (⟨depth m + 1, false⟩ :: stack) := by
  have new : Traced depth classes m (m + 1) ⟨depth m + 1, false⟩ :=
    ⟨declared, rfl, fun _ i first last => by omega, fun k j first _ order last => by omega⟩
  refine ⟨opened, fun above body below split reaches => ?_⟩
  cases above with
  | nil =>
    obtain ⟨rfl, _⟩ := List.cons.inj split
    exact ⟨m + 1, Nat.le_refl _, new, nofun⟩
  | cons top above =>
    obtain ⟨rfl, rfl⟩ := List.cons.inj split
    obtain ⟨c, before, traced, others⟩ := h.traced above body below rfl fun f mem =>
      reaches f (List.mem_cons_of_mem _ mem)
    refine ⟨c, Nat.le_succ_of_le before, traced, fun f mem waiting => ?_⟩
    rcases List.mem_cons.1 mem with rfl | mem
    · exact ⟨m + 1, Nat.le_refl _, Nat.lt_succ_of_le before, new⟩
    · obtain ⟨b, before', behind, traced'⟩ := others f mem waiting
      exact ⟨b, Nat.le_succ_of_le before', behind, traced'⟩

/-- Open classes are left up to one that is no deeper than the line. -/
theorem settle_of_opened {d : Nat} {opens : Bool} (h : ∀ body ∈ stack, body.opened) :
    Nesting.settle d opens stack = [] ∨ ∃ left body rest, stack = left ++ body :: rest ∧
      (∀ f ∈ left, d < f.depth) ∧ body.depth ≤ d ∧
      Nesting.settle d opens stack = { body with opened := true } :: rest := by
  induction stack with
  | nil => exact .inl rfl
  | cons top below ih =>
    rw [Nesting.settle]
    split
    · rename_i deep
      exact .inr ⟨[], top, below, rfl, by simp, deep, rfl⟩
    · rename_i shallow
      rw [h top List.mem_cons_self, Bool.true_or, if_pos rfl]
      refine (ih fun body mem => h body (List.mem_cons_of_mem _ mem)).imp_right ?_
      rintro ⟨left, body, rest, rfl, leaves, deep, settled⟩
      exact ⟨top :: left, body, rest, rfl, List.forall_mem_cons.2 ⟨Nat.lt_of_not_le shallow, leaves⟩,
        deep, settled⟩

/-- What a line leaves of the recorded classes: all of them where the innermost goes on waiting, and
else those from one on that is no deeper than the line. -/
theorem settle_cases (d : Nat) (opens : Bool) (h : ∀ body ∈ stack.tail, body.opened) :
    (∃ top below, stack = top :: below ∧ top.opened = false ∧ d < top.depth ∧
        Nesting.settle d opens stack = stack) ∨
      Nesting.settle d opens stack = [] ∨ ∃ left body rest, stack = left ++ body :: rest ∧
        (∀ f ∈ left, d < f.depth) ∧ body.depth ≤ d ∧
        Nesting.settle d opens stack = { body with opened := true } :: rest := by
  cases stack with
  | nil => exact .inr (.inl rfl)
  | cons top below =>
    cases opened : top.opened with
    | true =>
      exact .inr (settle_of_opened (List.forall_mem_cons.2 ⟨opened, h⟩))
    | false =>
      rw [Nesting.settle]
      split
      · rename_i deep
        exact .inr (.inr ⟨[], top, below, rfl, by simp, deep, rfl⟩)
      · rename_i shallow
        have low := Nat.lt_of_not_le shallow
        split
        · refine .inr ((settle_of_opened h).imp_right ?_)
          rintro ⟨left, body, rest, rfl, leaves, deep, settled⟩
          exact ⟨top :: left, body, rest, rfl, List.forall_mem_cons.2 ⟨low, leaves⟩, deep, settled⟩
        · exact .inl ⟨top, below, rfl, opened, low, rfl⟩

theorem Recorded.settle (h : Recorded depth classes (m + 1) m stack) (opens : Bool) :
    Recorded depth classes (m + 1) (m + 1) (Nesting.settle (depth (m + 1)) opens stack) := by
  rcases settle_cases (depth (m + 1)) opens h.opened with
    ⟨top, below, rfl, waiting, low, settled⟩ | none | ⟨left, body, rest, rfl, leaves, deep, settled⟩
  · rw [settled]
    refine ⟨h.opened, fun above body rest split reaches => ?_⟩
    obtain ⟨c, before, traced, others⟩ := h.traced above body rest split reaches
    cases above with
    | nil =>
      obtain ⟨rfl, _⟩ := List.cons.inj split
      exact ⟨c, before, traced.goesOnWaiting waiting low, nofun⟩
    | cons first above =>
      obtain ⟨rfl, rfl⟩ := List.cons.inj split
      -- the innermost class waits, and excuses all that falls below an open one
      obtain ⟨b, before', behind, traced'⟩ := others top List.mem_cons_self waiting
      have goesOn := traced'.goesOnWaiting waiting low
      have open_ : body.opened := h.opened body (by simp)
      refine ⟨c, before, traced.goesOnOpen open_
        ⟨b, goesOn.declared, behind, before', goesOn.waits waiting⟩, fun f mem closed => ?_⟩
      rcases List.mem_cons.1 mem with rfl | mem
      · exact ⟨b, before', behind, goesOn⟩
      · rw [h.opened f (List.mem_append_left _ mem)] at closed
        cases closed
  · rw [none]
    exact ⟨nofun, by simp⟩
  · rw [settled]
    have opened : ∀ f ∈ rest, f.opened := by
      intro f mem
      refine h.opened f ?_
      cases left with
      | nil => exact mem
      | cons top left => exact List.mem_append_right _ (List.mem_cons_of_mem _ mem)
    refine ⟨opened, fun above other below split reaches => ?_⟩
    cases above with
    | nil =>
      obtain ⟨rfl, rfl⟩ := List.cons.inj split
      obtain ⟨c, before, traced, _⟩ := h.traced left body rest rfl fun f mem _ =>
        Nat.lt_of_le_of_lt deep (leaves f mem)
      exact ⟨c, before, traced.opens deep, nofun⟩
    | cons top above =>
      obtain ⟨rfl, rfl⟩ := List.cons.inj split
      -- a class further out reaches the top only if its body is less deep, so the line is in it
      obtain ⟨shallower, others⟩ := List.forall_mem_cons.1 reaches
      have shallower := shallower rfl
      obtain ⟨c, before, traced, _⟩ := h.traced (left ++ body :: above) other below (by simp) (by
        intro f mem open_
        rcases List.mem_append.1 mem with mem | mem
        · exact Nat.lt_trans (Nat.lt_of_lt_of_le shallower deep) (leaves f mem)
        · rcases List.mem_cons.1 mem with rfl | mem
          · exact shallower
          · exact others f mem open_)
      have same : { other with opened := true } = other := by
        rw [← opened other (by simp)]
      have goesOn := traced.opens (Nat.le_trans (Nat.le_of_lt shallower) deep)
      rw [same] at goesOn
      refine ⟨c, before, goesOn, fun f mem closed => ?_⟩
      rcases List.mem_cons.1 mem with rfl | mem
      · cases closed
      · rw [opened f (List.mem_append_left _ mem)] at closed
        cases closed

/-! ### Lines one after the other -/

variable {n : Nesting} {text : List Char}

theorem Recorded.nestingWithin {l : SourceLine} (h : Recorded depth classes m m n.classes)
    (here : n.depth = depth m) (declares : l.class?.isSome → m + 1 ∈ classes) :
    Recorded depth classes (m + 1) m (l.nestingWithin n).classes := by
  obtain ⟨dropped, opened⟩ := h.dropUnopened
  rw [SourceLine.nestingWithin]
  split
  · rename_i declared
    rw [Nesting.enter, depth_dropUnopened, here]
    exact dropped.enter opened (declares declared)
  · split
    · exact dropped.raise
    · exact h.raise

theorem Recorded.advance (h : Recorded depth classes (m + 1) m n.classes)
    (here : depth (m + 1) = (n.advance text).depth) :
    Recorded depth classes (m + 1) (m + 1) (n.advance text).classes := by
  have dropped : ∀ ended : Bool,
      Recorded depth classes (m + 1) m (if ended then n.dropUnopened else n).classes := by
    intro ended
    split
    · exact h.dropUnopened.1
    · exact h
  rw [Nesting.advance] at here ⊢
  simp only at here ⊢
  rw [← here]
  exact (dropped _).settle _

/-- One line leaves the recorded classes traced. -/
theorem Recorded.behind (h : Recorded depth classes m m n.classes) (before : n.depth = depth m)
    (after : depth (m + 1) = (n.behind text).depth)
    (declares : (classRule.match? text).isSome → m + 1 ∈ classes) :
    Recorded depth classes (m + 1) (m + 1) (n.behind text).classes := by
  rw [Nesting.behind] at after ⊢
  split at after
  · rename_i comment
    rw [if_pos comment]
    exact h.idle (after.trans before)
  · rename_i code
    rw [if_neg code]
    have within := h.nestingWithin (l := ⟨"", 0, text⟩) before (by
      rw [SourceLine.class?, Option.isSome_map]
      exact declares)
    exact within.advance after

theorem depthAt_append (before after : List (List Char)) :
    depthAt (before ++ after) before.length = depthBehindLines 0 before := by
  rw [depthAt, List.take_left]

/-- Behind each of the lines, the recorded classes are traced. -/
theorem recorded_behindLines (before after : List (List Char))
    (declares : ∀ front text rest, before = front ++ text :: rest → (classRule.match? text).isSome →
      front.length + 1 ∈ classes) :
    Recorded (depthAt (before ++ after)) classes before.length before.length
      (Nesting.behindLines {} before).classes := by
  induction before using List.reverseRecOn generalizing after with
  | nil => exact ⟨nofun, by simp [Nesting.behindLines]⟩
  | append_singleton before text ih =>
    have earlier : ∀ front line rest, before = front ++ line :: rest →
        (classRule.match? line).isSome → front.length + 1 ∈ classes := by
      rintro front line rest rfl
      exact declares front line (rest ++ [text]) (by simp)
    have last : Nesting.behindLines {} (before ++ [text]) =
        (Nesting.behindLines {} before).behind text := by
      rw [Nesting.behindLines, List.foldl_append]
      rfl
    have here := depthAt_append before ([text] ++ after)
    have next := depthAt_append (before ++ [text]) after
    rw [← List.append_assoc] at here
    rw [List.length_append, List.length_singleton] at next ⊢
    rw [last]
    refine Recorded.behind ?_ ?_ ?_ (declares before text [] rfl)
    · rw [List.append_assoc]
      exact ih _ earlier
    · rw [here, depth_behindLines]
    · rw [next, ← last, depth_behindLines]

/-! ### Methods -/

variable {resolver : Resolver} {path : String}

theorem mem_classLines {content : String} {before after : List (List Char)}
    (lines : Text.lines content.toList = before ++ text :: after)
    (declared : (classRule.match? text).isSome) :
    before.length + 1 ∈ (extract resolver content path).classLines := by
  obtain ⟨m, found⟩ := Option.isSome_iff_exists.1 declared
  let l : SourceLine := ⟨path, 1 + before.length, text⟩
  have code : l.isComment = false := SourceLine.code_of_class found
  obtain ⟨s, ofClass, kind⟩ : ∃ s, l.class? = some s ∧ s.kind = .classType := by
    rw [SourceLine.class?, found]
    refine ⟨_, rfl, ?_⟩
    simp only
    split <;> rfl
  have mem : s ∈ (l.extract resolver (Nesting.behindLines {} before)).1.symbols := by
    rw [SourceLine.extract, code]
    exact List.mem_append_left _ (by simp [SourceLine.declared, ofClass])
  have found : s ∈ (extract resolver content path).symbols := by
    rw [extract, lines]
    exact mem_symbols_extractLines.2 ⟨before, text, after, rfl, mem⟩
  refine List.mem_map.2 ⟨s, List.mem_filter.2 ⟨found, by simpa using kind⟩, ?_⟩
  rw [SourceLine.line_of_mem_extract mem, Nat.add_comm]

/-- Behind the lines in front of a text's rest, the recorded classes are traced. -/
theorem recorded_before {content : String} {before after : List (List Char)}
    (lines : Text.lines content.toList = before ++ after) :
    Recorded (depthAt (Text.lines content.toList)) (extract resolver content path).classLines
      before.length before.length (Nesting.behindLines {} before).classes := by
  have declares : ∀ front line rest, before = front ++ line :: rest →
      (classRule.match? line).isSome →
      front.length + 1 ∈ (extract resolver content path).classLines := by
    rintro front line rest rfl declared
    exact mem_classLines (by rw [lines, List.append_assoc, List.cons_append]) declared
  rw [lines]
  exact recorded_behindLines before after declares

theorem exists_innermost (h : n.inBody) :
    ∃ body rest, n.classes = body :: rest ∧ body.opened ∧ body.depth = n.depth := by
  rw [Nesting.inBody] at h
  split at h
  · rename_i body rest eq
    rw [Bool.and_eq_true, beq_iff_eq] at h
    exact ⟨body, rest, eq, h⟩
  · cases h

theorem SourceLine.inBody_of_method {l : SourceLine} {s : SymbolRecord}
    (mem : s ∈ (l.extract resolver n).1.symbols) (method : s.kind = .method) :
    (l.nestingWithin n).inBody := by
  rw [extract] at mem
  split at mem
  · cases mem
  · rcases List.mem_append.1 mem with declared | found
    · exact absurd method (kind_declared declared)
    · rw [methodWithin] at found
      split at found
      · rename_i within
        rw [Bool.and_eq_true] at within
        exact within.1
      · cases found

/-- Each method stands directly in the body of a class that was declared on a line before. Once the body
has opened, the depth stays that of the body at least, up to the method; but it may fall below on lines
on which a class that was declared behind the first one has not opened its body yet. -/
theorem class_of_method (resolver : Resolver) (content path : String) {s : SymbolRecord}
    (mem : s ∈ (extract resolver content path).symbols) (method : s.kind = .method) :
    let depth := depthAt (Text.lines content.toList)
    let classes := (extract resolver content path).classLines
    ∃ c ∈ classes, c < s.line ∧ depth (s.line - 1) = depth (c - 1) + 1 ∧
      ∀ k j, c ≤ k → depth (c - 1) < depth k → k ≤ j → j < s.line →
        depth (c - 1) < depth j ∨ Waits depth classes c j := by
  intro depth classes
  obtain ⟨before, text, after, lines, found⟩ := mem_symbols_extractLines.1 mem
  have line : s.line = before.length + 1 := by
    rw [SourceLine.line_of_mem_extract found, Nat.add_comm]
  have here : (Nesting.behindLines {} before).depth = depth before.length := by
    rw [depth_behindLines]
    exact (lines ▸ depthAt_append before (text :: after)).symm
  have recorded : Recorded depth classes before.length before.length
      (Nesting.behindLines {} before).classes := recorded_before lines
  have within := recorded.nestingWithin (l := ⟨path, 1 + before.length, text⟩) here (by
    intro declared
    rw [SourceLine.class?, Option.isSome_map] at declared
    exact mem_classLines lines declared)
  obtain ⟨body, rest, innermost, opened, base⟩ :=
    exists_innermost (SourceLine.inBody_of_method found method)
  rw [depth_nestingWithin, here] at base
  obtain ⟨c, limit, traced, _⟩ := within.traced [] body rest innermost (by simp)
  have start := traced.base
  -- the class is not the one of this line, whose body would be deeper
  have other : c ≠ before.length + 1 := by
    rintro rfl
    rw [Nat.add_sub_cancel] at start
    omega
  refine ⟨c, traced.declared, by omega, ?_, fun k j first rises order last => ?_⟩
  · rw [line, Nat.add_sub_cancel, ← base, start]
  · exact traced.stays k j first rises order (by omega)

/-- A class whose last method stands behind a block. -/
def blockClass : List (List Char) :=
  ["class A \x7b", "  m() \x7b", "  \x7d", "  n() \x7b\x7d", "\x7d"].map String.toList

theorem class_of_method_sample :
    let content := String.ofList (Text.ofLines blockClass)
    let depth := depthAt (Text.lines content.toList)
    let x := extract {} content "/a.ts"
    ∃ s ∈ x.symbols, s.kind = .method ∧ s.line = 4 ∧ ∃ c ∈ x.classLines, c < 4 ∧
      depth 3 = depth (c - 1) + 1 ∧ ∀ k j, c ≤ k → depth (c - 1) < depth k → k ≤ j → j < 4 →
        depth (c - 1) < depth j ∨ Waits depth x.classLines c j := by
  intro content depth x
  have lines : Text.lines content.toList = blockClass := by
    rw [String.toList_ofList]
    exact Text.lines_ofLines (by decide +kernel)
  obtain ⟨s, mem, method, line⟩ : ∃ s ∈ x.symbols, s.kind = .method ∧ s.line = 4 := by
    show ∃ s ∈ (extract {} content "/a.ts").symbols, _
    rw [extract, lines]
    decide +kernel
  have found := class_of_method {} content "/a.ts" mem method
  rw [line] at found
  exact ⟨s, mem, method, line, found⟩

/-- A class that ends with one without a body, and a function behind them. -/
def bodilessClass : List (List Char) :=
  ["class A \x7b", "class Bar", "\x7d", "export function later() \x7b", "  step(2);", "\x7d"].map
    String.toList

/-- The body of the first class goes on in the function: what is called there is taken for a method. -/
theorem method_of_bodilessClass :
    let content := String.ofList (Text.ofLines bodilessClass)
    let depth := depthAt (Text.lines content.toList)
    let x := extract {} content "/a.ts"
    x.methods = [(5, "step")] ∧ ¬∃ c ∈ x.classLines, c < 5 ∧ depth 4 = depth (c - 1) + 1 ∧
      ∀ k j, c ≤ k → depth (c - 1) < depth k → k ≤ j → j < 5 → depth (c - 1) < depth j := by
  intro content depth x
  have lines : Text.lines content.toList = bodilessClass := by
    rw [String.toList_ofList]
    exact Text.lines_ofLines (by decide +kernel)
  have found : x.methods = [(5, "step")] ∧ x.classLines = [1, 2] := by
    show (extract {} content "/a.ts").methods = _ ∧ (extract {} content "/a.ts").classLines = _
    rw [extract, lines]
    decide +kernel
  have depths : depth 0 = 0 ∧ depth 1 = 1 ∧ depth 3 = 0 ∧ depth 4 = 1 := by
    show depthAt (Text.lines content.toList) 0 = 0 ∧ depthAt (Text.lines content.toList) 1 = 1 ∧
      depthAt (Text.lines content.toList) 3 = 0 ∧ depthAt (Text.lines content.toList) 4 = 1
    rw [lines]
    decide +kernel
  obtain ⟨start, opened, closed, again⟩ := depths
  refine ⟨found.1, ?_⟩
  rintro ⟨c, mem, _, base, stays⟩
  rw [found.2, List.mem_cons, List.mem_singleton] at mem
  rcases mem with rfl | rfl
  · -- the depth has fallen behind the third line
    have fallen := stays 1 3 (by decide) (by rw [Nat.sub_self, start, opened]; decide) (by decide)
      (by decide)
    rw [Nat.sub_self, start, closed] at fallen
    cases fallen
  · rw [again, show 2 - 1 = 1 from rfl, opened] at base
    cases base

end Source

end SourceAtlas
