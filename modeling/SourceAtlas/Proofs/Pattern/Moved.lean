import Mathlib.Data.List.Forall2
import SourceAtlas.Proofs.Pattern.Search
/-!
Patterns read further on in a line. What a pattern makes of a place is told by the text that follows
and by whether a word character stands in front. So two searches from places that agree in these come
to matches that agree in them, group by group, however far apart the places stand.
-/

namespace SourceAtlas

/-- The second place stands `n` characters further on in its line than the first one in its own. The
same text follows them, and a word character stands before both or neither. -/
structure Cursor.Moved (n : Nat) (k k' : Cursor) : Prop where
  read : k'.read = k.read + n
  after : k'.after = k.after
  edge : k'.last.any Text.isWord = k.last.any Text.isWord

namespace Cursor.Moved

variable {n : Nat} {k k' e e' : Cursor}

theorem atWordEdge (h : k.Moved n k') : k'.atWordEdge = k.atWordEdge := by
  rw [Cursor.atWordEdge, Cursor.atWordEdge, h.edge, h.after]

theorem upTo (h : k.Moved n k') (stop : e.Moved n e') : k'.upTo e' = k.upTo e := by
  rw [Cursor.upTo, Cursor.upTo, h.after, h.read, stop.read, Nat.add_sub_add_right]

/-- They stay so behind the next character. -/
theorem step (h : k.Moved n k') (c : Char) (rest : List Char) :
    Cursor.Moved n ⟨k.read + 1, some c, rest⟩ ⟨k'.read + 1, some c, rest⟩ :=
  ⟨by rw [h.read, Nat.add_right_comm], rfl, rfl⟩

theorem skip (h : k.Moved n k') (accepts : Char → Bool) : (k.skip accepts).Moved n (k'.skip accepts) := by
  obtain ⟨read, last, text⟩ := k
  obtain ⟨read', last', text'⟩ := k'
  obtain rfl : text' = text := h.after
  rw [Cursor.skip, Cursor.skip]
  induction text' generalizing read last read' last' with
  | nil => exact h
  | cons c cs ih =>
    simp only [skipFrom]
    split
    · exact ih _ _ _ _ (h.step c cs)
    · exact h

end Cursor.Moved

/-- The second group has the number of the first one and stands `n` characters further on. -/
def GroupMoved (n : Nat) (g g' : Nat × Cursor × Cursor) : Prop :=
  g'.1 = g.1 ∧ g.2.1.Moved n g'.2.1 ∧ g.2.2.Moved n g'.2.2

/-- The second match ends `n` characters further on than the first one, and its groups stand there. -/
structure Match.Moved (n : Nat) (m m' : Match) : Prop where
  cursor : m.cursor.Moved n m'.cursor
  groups : List.Forall₂ (GroupMoved n) m.groups m'.groups

namespace Match.Moved

variable {n : Nat} {m m' : Match}

theorem rest (h : m.Moved n m') : m'.rest = m.rest := h.cursor.after

/-- The groups have the same texts. -/
theorem group? (h : m.Moved n m') (index : Nat) : m'.group? index = m.group? index := by
  obtain ⟨k, groups⟩ := m
  obtain ⟨k', groups'⟩ := m'
  have lists : List.Forall₂ (GroupMoved n) groups groups' := h.groups
  simp only [Match.group?]
  clear h
  induction lists with
  | nil => rfl
  | @cons g g' gs gs' here later ih =>
    obtain ⟨i, first, stop⟩ := g
    obtain ⟨i', first', stop'⟩ := g'
    obtain ⟨rfl, start, ending⟩ := here
    simp only [List.lookup_cons]
    split
    · exact congrArg some (start.upTo ending)
    · exact ih

theorem group (h : m.Moved n m') (index : Nat) : m'.group index = m.group index := by
  rw [Match.group, Match.group, h.group?]

theorem moveTo (h : m.Moved n m') {k k' : Cursor} (moved : k.Moved n k') :
    (m.moveTo k).Moved n (m'.moveTo k') := ⟨moved, h.groups⟩

end Match.Moved

namespace Pattern

variable {n : Nat} {p q : Pattern} {k k' : Cursor} {m m' : Match} {next next' : Match → Option Match}

/-- What comes next gives moved matches for moved matches. -/
def Carries (n : Nat) (next next' : Match → Option Match) : Prop :=
  ∀ m m', m.Moved n m' → Option.Rel (Match.Moved n) (next m) (next' m')

/-- The first of two answers, or else the second. -/
theorem rel_orElse {x x' y y' : Option Match} :
    Option.Rel (Match.Moved n) x x' → Option.Rel (Match.Moved n) y y' →
      Option.Rel (Match.Moved n) (match x with | some e => some e | none => y)
        (match x' with | some e => some e | none => y') := by
  intro first second
  cases first with
  | some moved => exact .some moved
  | none => exact second

theorem advance_moved {accepts : Char → Bool} {goOn goOn' : Cursor → Option Match}
    (carries : ∀ k k', k.Moved n k' → Option.Rel (Match.Moved n) (goOn k) (goOn' k'))
    (h : k.Moved n k') : Option.Rel (Match.Moved n) (advance accepts goOn k.read k.last k.after)
      (advance accepts goOn' k'.read k'.last k'.after) := by
  obtain ⟨read, last, text⟩ := k
  obtain ⟨read', last', text'⟩ := k'
  obtain rfl : text' = text := h.after
  induction text' generalizing read last read' last' with
  | nil => exact carries _ _ h
  | cons c cs ih =>
    simp only [advance]
    refine rel_orElse (carries _ _ h) ?_
    split
    · exact ih _ _ _ _ (h.step c cs)
    · exact .none

theorem repeated_moved {step step' : (Match → Option Match) → Match → Option Match}
    (carries : ∀ {goOn goOn'}, Carries n goOn goOn' → Carries n (step goOn) (step' goOn'))
    (goOn : Carries n next next') (fuel : Nat) :
    Carries n (repeated step next fuel) (repeated step' next' fuel) := by
  induction fuel with
  | zero => exact goOn
  | succ fuel ih => exact fun m m' h => rel_orElse (carries ih m m' h) (goOn m m' h)

/-- A search from a moved place comes to the moved match. -/
theorem find?_moved (carries : Carries n next next') : Carries n (p.find? next) (p.find? next') := by
  induction p generalizing next next' with
  | empty => exact carries
  | one accepts =>
    intro m m' h
    obtain ⟨⟨read, last, text⟩, groups⟩ := m
    obtain ⟨⟨read', last', text'⟩, groups'⟩ := m'
    obtain rfl : text' = text := h.cursor.after
    cases text' with
    | nil => exact .none
    | cons c cs =>
      simp only [find?, Cursor.next?]
      split
      · exact carries _ _ (h.moveTo (h.cursor.step c cs))
      · exact .none
  | wordEdge =>
    intro m m' h
    rw [find?, find?, h.cursor.atWordEdge]
    split
    · exact carries m m' h
    · exact .none
  | lineEnd =>
    intro m m' h
    rw [find?, find?, h.rest]
    split
    · exact carries m m' h
    · exact .none
  | both p q first second => exact first (second carries)
  | either p q first second =>
    exact fun m m' h => rel_orElse (first carries m m' h) (second carries m m' h)
  | run accepts => exact fun m m' h => carries _ _ (h.moveTo (h.cursor.skip accepts))
  | fewest accepts =>
    exact fun m m' h => advance_moved (fun k k' moved => carries _ _ (h.moveTo moved)) h.cursor
  | many p ih =>
    intro m m' h
    rw [find?, find?, h.rest]
    exact repeated_moved ih carries _ m m' h
  | only fits p ih =>
    intro m m' h
    refine ih (fun e e' moved => ?_) m m' h
    rw [h.cursor.upTo moved.cursor]
    split
    · exact carries e e' moved
    · exact .none
  | group i p ih =>
    intro m m' h
    refine ih (fun e e' moved => ?_) m m' h
    refine carries _ _ ⟨moved.cursor, ?_⟩
    exact .cons ⟨rfl, h.cursor, moved.cursor⟩ moved.groups

theorem matchAt?_moved (h : k.Moved n k') :
    Option.Rel (Match.Moved n) (p.matchAt? k) (p.matchAt? k') :=
  find?_moved (fun _ _ moved => .some moved) _ _ ⟨h, .nil⟩

theorem searchFrom?_moved (h : k.Moved n k') :
    Option.Rel (Match.Moved n) (p.searchFrom? k.read k.last k.after)
      (p.searchFrom? k'.read k'.last k'.after) := by
  obtain ⟨read, last, text⟩ := k
  obtain ⟨read', last', text'⟩ := k'
  obtain rfl : text' = text := h.after
  induction text' generalizing read last read' last' with
  | nil => exact matchAt?_moved h
  | cons c cs ih => exact rel_orElse (matchAt?_moved h) (ih _ _ _ _ (h.step c cs))

/-- All matches are moved alike. -/
theorem matchesFrom_moved (filled : p.Filled) (h : k.Moved n k') :
    List.Forall₂ (Match.Moved n) (p.matchesFrom k) (p.matchesFrom k') := by
  induction size : k.after.length using Nat.strongRecOn generalizing k k' with
  | _ size ih =>
    have found := @searchFrom?_moved n p k k' h
    rw [matchesFrom_eq filled k, matchesFrom_eq filled k']
    cases here : p.searchFrom? k.read k.last k.after with
    | none =>
      rw [here] at found
      cases there : p.searchFrom? k'.read k'.last k'.after with
      | none => exact .nil
      | some m' =>
        rw [there] at found
        cases found
    | some m =>
      rw [here] at found
      cases there : p.searchFrom? k'.read k'.last k'.after with
      | none =>
        rw [there] at found
        cases found
      | some m' =>
        rw [there] at found
        obtain ⟨moved⟩ := found
        exact .cons moved (ih _ (size ▸ (filled.length_lt here).2) moved.cursor rfl)

/-! ### Characters in front of a line -/

variable {indent line : List Char} {accepts : Char → Bool}

/-- Behind a text without word characters in front of a line, the line itself begins. -/
theorem moved_start (apart : ∀ c ∈ indent, Text.isWord c = false) (line : List Char) :
    (Cursor.start line).Moved indent.length ((Cursor.start (indent ++ line)).past indent line) := by
  refine ⟨rfl, rfl, ?_⟩
  simp only [Cursor.past, Cursor.start, Option.or_none]
  cases last : indent.getLast? with
  | none => rfl
  | some c => simp [apart c (List.mem_of_getLast? last)]

/-- A pattern that begins with a run passes over such a text if the run takes its characters. -/
theorem match?_moved (accepted : ∀ c ∈ indent, accepts c) (apart : ∀ c ∈ indent, Text.isWord c = false) :
    Option.Rel (Match.Moved indent.length) ((both (run accepts) q).match? line)
      ((both (run accepts) q).match? (indent ++ line)) := by
  have moved := (moved_start apart line).skip accepts
  rw [← Cursor.skip_past rfl accepted] at moved
  have behind : ((Match.start (Cursor.start line)).moveTo _).Moved indent.length
      ((Match.start (Cursor.start (indent ++ line))).moveTo _) := ⟨moved, .nil⟩
  have found : Option.Rel (Match.Moved indent.length) (q.find? some _) (q.find? some _) :=
    find?_moved (fun _ _ found => .some found) _ _ behind
  exact found

/-- A search passes over such a text if the pattern begins with none of its characters, -/
theorem search?_moved (skips : p.Skips indent line) (apart : ∀ c ∈ indent, Text.isWord c = false) :
    Option.Rel (Match.Moved indent.length) (p.search? line) (p.search? (indent ++ line)) := by
  let behind := (Cursor.start (indent ++ line)).past indent line
  have whole : (Cursor.start (indent ++ line)).after = indent ++ line := rfl
  have passed : p.search? (indent ++ line) = p.searchFrom? behind.read behind.last behind.after :=
    searchFrom?_past skips whole
  rw [passed]
  exact searchFrom?_moved (moved_start apart line)

/-- and so does a search for all matches. -/
theorem searchAll_moved (filled : p.Filled) (skips : p.Skips indent line)
    (apart : ∀ c ∈ indent, Text.isWord c = false) :
    List.Forall₂ (Match.Moved indent.length) (p.searchAll line) (p.searchAll (indent ++ line)) := by
  have passed : p.searchAll (indent ++ line) =
      p.matchesFrom ((Cursor.start (indent ++ line)).past indent line) := matchesFrom_past filled skips rfl
  rw [passed]
  exact matchesFrom_moved filled (moved_start apart line)

end Pattern

end SourceAtlas
