import SourceAtlas.Proofs.Json.RoundTrip
import SourceAtlas.Proofs.Rpc.Line
import SourceAtlas.Proofs.Text.Trim
import SourceAtlas.Rpc.Server
/-!
Sessions of the server. A session reads lines until one of them asks for the end; before each line any
time may have passed, and any files may have been changed. What every line leads to is said once, for
all states of the workspace (`Turn.Proper`): whether it is answered, by how many responses and under
which id, whether the session ends with it, and what it can change. This holds for lines that have a
text. At one that is no UTF-8 the session fails, and neither this line nor any behind it is answered.
-/

namespace SourceAtlas

/-! ### Documents on one line -/

namespace Json

theorem lineEnd_not_mem_toDigits (n : Nat) : '\n' ∉ Nat.toDigits 10 n := fun mem =>
  absurd (isDigit_of_mem_toDigits mem) (by decide)

theorem lineEnd_not_mem_layout {digits : List Char} (h : '\n' ∉ digits) (power : Int) :
    '\n' ∉ Binary64.layout digits power := by
  have taken (n : Nat) : '\n' ∉ digits.take n := fun mem => h (List.mem_of_mem_take mem)
  have dropped (n : Nat) : '\n' ∉ digits.drop n := fun mem => h (List.mem_of_mem_drop mem)
  have exponent (n : Nat) := lineEnd_not_mem_toDigits n
  unfold Binary64.layout
  dsimp only
  split
  · simp [h]
  · split
    · simp [taken, dropped]
    · split
      · simp [h]
      · have later : '\n' ∉ digits.tail := fun mem => h (List.mem_of_mem_tail mem)
        split <;> split <;> simp [taken, later, exponent]

theorem lineEnd_not_mem_numberText (n : JsonNumber) : '\n' ∉ numberText n := by
  cases n with
  | int i =>
    rw [numberText_int]
    split <;> simp [lineEnd_not_mem_toDigits]
  | real x =>
    rw [numberText, Binary64.print]
    -- the digits are not worked out
    generalize Binary64.trimZeros 400 x.shortest = decimal
    obtain ⟨c, k⟩ := decimal
    have digits := lineEnd_not_mem_layout (lineEnd_not_mem_toDigits c) k
    have sign : '\n' ∉ if x.negative then ['-'] else [] := by split <;> decide
    split
    · simp [sign]
    · simp [sign, digits]

theorem lineEnd_not_mem_escape (c : Char) : '\n' ∉ escape c := by
  rcases escape_cases c with ⟨single, _, printable⟩ | ⟨marks, escaped, known⟩
  · rw [single, List.mem_singleton]
    rintro rfl
    exact absurd printable (by decide)
  · rw [escaped, List.mem_cons]
    rintro (same | mem)
    · exact absurd same (by decide)
    · exact absurd (known _ mem) (by decide)

theorem lineEnd_not_mem_quoted (s : String) : '\n' ∉ quoted s := by
  simp [quoted, lineEnd_not_mem_escape]

theorem lineEnd_not_mem_join {pieces : List (List Char)} (h : ∀ p ∈ pieces, '\n' ∉ p) :
    '\n' ∉ Text.join ',' pieces := by
  fun_induction Text.join ',' pieces with
  | case1 => simp
  | case2 piece => exact h piece List.mem_cons_self
  | case3 piece pieces _ ih =>
    have first := h piece List.mem_cons_self
    have later := ih fun p hp => h p (List.mem_cons_of_mem _ hp)
    simp [first, later]

/-- The compact text of a document is one line. -/
theorem lineEnd_not_mem_compactText (j : Json) : '\n' ∉ compactText j := by
  induction j using Json.induction with
  | null => decide
  | bool b => cases b <;> decide
  | number n => exact lineEnd_not_mem_numberText n
  | string s => exact lineEnd_not_mem_quoted s
  | array items ih =>
    have inner : '\n' ∉ Text.join ',' (items.map compactText) :=
      lineEnd_not_mem_join (by simpa using ih)
    simp [compactText, compactItems_eq, inner]
  | object members ih =>
    have inner : '\n' ∉ Text.join ',' (members.map memberText) := by
      refine lineEnd_not_mem_join fun piece mem => ?_
      obtain ⟨m, here, rfl⟩ := List.mem_map.1 mem
      simp [memberText, lineEnd_not_mem_quoted, ih m here]
    simp [compactText, compactMembers_eq, inner]

end Json

namespace Rpc

/-! ### Blank lines -/

theorem not_isDigit_of_isBlank {c : Char} (h : Text.isBlank c) : c.isDigit = false := by
  rw [← Bool.not_eq_true]
  intro digit
  rw [Char.isDigit, Bool.and_eq_true, decide_eq_true_eq, decide_eq_true_eq] at digit
  have low : 48 ≤ c.toNat := digit.1
  have high : c.toNat ≤ 57 := digit.2
  simp only [Text.isBlank, Bool.or_eq_true, Bool.and_eq_true, decide_eq_true_eq, beq_iff_eq] at h
  omega

theorem number?_eq_none {cs : List Char} (sign : ∀ rest, cs ≠ '-' :: rest)
    (whole : Json.wholeDigits? cs = none) : Json.number? cs = none := by
  unfold Json.number?
  simp [whole]

/-- A line of blanks holds no message. -/
theorem ofText?_of_blank {line : List Char} (h : (Text.trim line).isEmpty) :
    Request.ofText? (.ofList line) = none := by
  have record : Json.readRecord? Request.fieldNames line = none := by
    rw [Json.readRecord?, Json.readRaw?, Json.value]
    cases rest : Json.skipSpace line with
    | nil => rfl
    | cons c cs =>
      have mem : c ∈ Json.skipSpace line := by rw [rest]; exact List.mem_cons_self
      have blank := Text.isBlank_of_trim h ((List.dropWhile_sublist _).mem mem)
      have other {d : Char} (no : Text.isBlank d = false) : c ≠ d := fun same => by
        rw [same, no] at blank
        cases blank
      have whole : Json.wholeDigits? (c :: cs) = none := by
        simp [Json.wholeDigits?, not_isDigit_of_isBlank blank]
      have sign : c ≠ '-' := other (by decide)
      have number : Json.number? (c :: cs) = none :=
        number?_eq_none (fun _ same => sign (List.cons.inj same).1) whole
      have quote : c ≠ '"' := other (by decide)
      have bracket : c ≠ '[' := other (by decide)
      have brace : c ≠ '{' := other (by decide)
      have nullish : c ≠ 'n' := other (by decide)
      have truth : c ≠ 't' := other (by decide)
      have falsehood : c ≠ 'f' := other (by decide)
      simp [quote, bracket, brace, nullish, truth, falsehood, number]
  rw [Request.ofText?, String.toList_ofList, record]
  rfl

/-! ### The message on a line -/

/-- A field that is set: it is not left out, and it is not `null`. -/
def given (fields : List (String × Json)) (name : String) : Option Json :=
  match fields.lookup name with
  | some .null => none
  | found => found

/-- The fields of the message on a line, as they are read: a number that is no integer of 64 bits has
become a double. -/
def message? (line : List Char) : Option (List (String × Json)) :=
  (Request.ofText? (.ofList line)).bind fun _ =>
    (Json.readRecord? Request.fieldNames line).bind (·.writtenFields? Request.fieldNames 4)

/-- The text of a field. -/
def textField (fields : List (String × Json)) (name : String) : String :=
  ((fields.lookup name).bind Json.string?).getD ""

theorem unsettable_some (fields : List (String × Json)) (name : String) :
    Json.unsettable fields name some = some (given fields name) := by
  rw [Json.unsettable, given]
  cases fields.lookup name with
  | none => rfl
  | some j => cases j <;> rfl

theorem unsettable_string? {fields : List (String × Json)} {name : String} {s : Option String}
    (h : Json.unsettable fields name Json.string? = some s) : s.getD "" = textField fields name := by
  rw [Json.unsettable] at h
  rw [textField]
  cases found : fields.lookup name with
  | none =>
    rw [found] at h
    rw [← Option.some.inj h]
    rfl
  | some j =>
    rw [found] at h
    -- a text is read, `null` is no text, and any other value is refused
    cases j <;> simp_all [Json.string?]

/-- A message is read as its fields say. -/
theorem ofText?_of_message? {line : List Char} {fields : List (String × Json)}
    (h : message? line = some fields) : Request.ofText? (.ofList line) =
      some ⟨given fields "id", textField fields "method", given fields "params"⟩ := by
  obtain ⟨q, message, h⟩ := Option.bind_eq_some_iff.1 h
  obtain ⟨document, read, written⟩ := Option.bind_eq_some_iff.1 h
  rw [message]
  simp only [Request.ofText?, String.toList_ofList, read, written, unsettable_some,
    Option.bind_eq_bind, Option.bind_some] at message
  obtain ⟨version, -, message⟩ := Option.bind_eq_some_iff.1 message
  obtain ⟨method, found, message⟩ := Option.bind_eq_some_iff.1 message
  rw [← Option.some.inj message, unsettable_string? found]

theorem message?_isSome {line : List Char} {q : Request} (h : Request.ofText? (.ofList line) = some q) :
    ∃ fields, message? line = some fields := by
  have read := h
  rw [Request.ofText?, String.toList_ofList] at read
  obtain ⟨document, found, read⟩ := Option.bind_eq_some_iff.1 read
  obtain ⟨fields, written, -⟩ := Option.bind_eq_some_iff.1 read
  exact ⟨fields, by rw [message?, h, Option.bind_some, found, Option.bind_some, written]⟩

/-! ### Replies -/

/-- The message asks for the analysis of a project. -/
def asksForAnalysis (fields : List (String × Json)) : Prop :=
  (given fields "id").isSome ∧ textField fields "method" = "tools/call" ∧
    ∃ params, given fields "params" = some params ∧ params.field "name" = .string "analyze_project"

/-- A response to the request with this id: it names the id once, and it has a result or an error. -/
def Answers (id response : Json) : Prop :=
  ∃ members, response = .object members ∧ members.filter (·.1 == "id") = [("id", id)] ∧
    (members.filter fun m => m.1 == "result" || m.1 == "error").length = 1

theorem answers_resultResponse (id result : Json) : Answers id (resultResponse id result) :=
  ⟨_, rfl, by simp, by simp⟩

theorem answers_errorResponse (id : Json) (fault : RpcFault) : Answers id (errorResponse id fault) :=
  ⟨_, rfl, by simp, by simp⟩

theorem answers_respond (id : Json) (outcome : Except RpcFault Json) :
    Answers id (respond id outcome) := by
  cases outcome with
  | ok result => exact answers_resultResponse id result
  | error fault => exact answers_errorResponse id fault

theorem name_of_ofName? {name : String} {tool : Tool} (h : Tool.ofName? name = some tool) :
    tool.name = name := by
  simpa using List.find?_some h

/-- The tool of a call is the one that its parameters name. -/
theorem requestedCall_eq_ok {params : Option Json} {tool : Tool} {arguments : Arguments}
    (h : requestedCall params = .ok (tool, arguments)) :
    ∃ p, params = some p ∧ p.field "name" = .string tool.name := by
  cases params with
  | none => cases h
  | some p =>
    refine ⟨p, rfl, ?_⟩
    rw [requestedCall] at h
    split at h
    · rename_i found named
      obtain ⟨name, text, named⟩ := Option.bind_eq_some_iff.1 named
      obtain ⟨rfl, -⟩ := Prod.mk.inj (Except.ok.inj h)
      rw [name_of_ofName? named]
      cases value : p.field "name" <;> simp_all [Json.string?]
    · cases h

variable (w : Workspace) (t : FileTree) (now : Int) (id : Json) (method : String)
  (params : Option Json)

/-- A question leaves everything as it was. -/
theorem call_ask (arguments : Arguments) (question : Question) :
    (call w t now arguments (.ask question)).1 = w ∧
      (call w t now arguments (.ask question)).2.1 = t := ⟨rfl, rfl⟩

/-- Every request is answered under its id, `shutdown` and no other ends the session, and nothing
changes unless an analysis is asked for. -/
theorem reply_cases : (∃ e, (reply w t now id method params).response = some e ∧ Answers id e) ∧
    (reply w t now id method params).stops = (method == "shutdown") ∧
    ((reply w t now id method params).workspace = w ∧ (reply w t now id method params).tree = t ∨
      method = "tools/call" ∧
        ∃ p, params = some p ∧ p.field "name" = .string "analyze_project") := by
  unfold reply
  split
  · split
    · rename_i tool arguments asked
      refine ⟨⟨_, rfl, answers_resultResponse id _⟩, by simp, ?_⟩
      cases tool with
      | analyzeProject => exact .inr ⟨rfl, requestedCall_eq_ok asked⟩
      | ask question => exact .inl (call_ask w t now arguments question)
    · exact ⟨⟨_, rfl, answers_errorResponse id _⟩, by simp, .inl ⟨rfl, rfl⟩⟩
  · exact ⟨⟨_, rfl, answers_resultResponse id _⟩, by simp, .inl ⟨rfl, rfl⟩⟩
  · rename_i ends
    exact ⟨⟨_, rfl, answers_respond id _⟩, by simpa using ends, .inl ⟨rfl, rfl⟩⟩

/-! ### Turns -/

/-- The line asks for the end of the session. -/
def isShutdown (line : List Char) : Bool :=
  (message? line).any fun fields =>
    (given fields "id").isSome && textField fields "method" == "shutdown"

/-- A line that was read, the state in which it was read, and what it led to. -/
structure Turn where
  workspace : Workspace
  tree : FileTree
  line : List Char
  reply : Reply

/-- Nothing changed, and the session goes on. -/
structure Turn.Idle (u : Turn) : Prop where
  workspace : u.reply.workspace = u.workspace
  tree : u.reply.tree = u.tree
  goes_on : u.reply.stops = false

/-- What every line leads to. -/
structure Turn.Proper (u : Turn) : Prop where
  /-- A blank line says nothing. -/
  blank : (Text.trim u.line).isEmpty → u.reply.response = none ∧ u.Idle
  /-- A line that is no message is answered by one error, without an id. -/
  malformed : ¬(Text.trim u.line).isEmpty → message? u.line = none → u.Idle ∧
    ∃ e error, u.reply.response = some e ∧ Answers .null e ∧ e.get? "error" = some error ∧
      error.get? "code" = some (.int (-32700))
  /-- A message without an id is not answered, whatever it asks for. -/
  notification : ∀ fields, message? u.line = some fields → given fields "id" = none →
    u.reply.response = none ∧ u.Idle
  /-- A message with an id is answered once, under this id. -/
  request : ∀ fields id, message? u.line = some fields → given fields "id" = some id →
    ∃ e, u.reply.response = some e ∧ Answers id e
  /-- Only a call of the analysis changes the workspace or the files. -/
  change : u.reply.workspace ≠ u.workspace ∨ u.reply.tree ≠ u.tree →
    ∃ fields, message? u.line = some fields ∧ asksForAnalysis fields
  /-- The session ends with a request for the end. -/
  stops : u.reply.stops = isShutdown u.line
  /-- A response is written on one line. -/
  one_line : ∀ e, u.reply.response = some e → '\n' ∉ e.compact.toList

theorem message?_of_blank {line : List Char} (h : (Text.trim line).isEmpty) : message? line = none := by
  rw [message?, ofText?_of_blank h, Option.bind_none]

/-- The turn of a line that is read in a state. -/
def Turn.read (line : List Char) : Turn := ⟨w, t, line, handleLine w t now line⟩

theorem Turn.Idle.of_reply {u : Turn} {response : Option Json}
    (h : u.reply = ⟨response, false, u.workspace, u.tree⟩) : u.Idle := by
  constructor <;> rw [h]

theorem Turn.Idle.unchanged {u : Turn} (h : u.Idle) :
    ¬(u.reply.workspace ≠ u.workspace ∨ u.reply.tree ≠ u.tree) := by
  simp [h.workspace, h.tree]

theorem lineEnd_not_mem_compact (j : Json) : '\n' ∉ j.compact.toList := by
  rw [Json.compact, String.toList_ofList]
  exact Json.lineEnd_not_mem_compactText j

section Kinds

variable {line : List Char} {fields : List (String × Json)}

/-- A line without a message: blank, or malformed. -/
theorem proper_of_message?_eq_none (h : message? line = none) : (Turn.read w t now line).Proper := by
  have unread : Request.ofText? (.ofList line) = none := by
    rw [Option.eq_none_iff_forall_ne_some]
    intro q read
    obtain ⟨fields, found⟩ := message?_isSome read
    cases h.symm.trans found
  have unasked : isShutdown line = false := by rw [isShutdown, h, Option.any_none]
  have absent {fields : List (String × Json)} (found : message? line = some fields) : False := by
    cases h.symm.trans found
  by_cases blank : (Text.trim line).isEmpty
  · have said : (Turn.read w t now line).reply = ⟨none, false, w, t⟩ := if_pos blank
    have idle := Turn.Idle.of_reply said
    exact {
      blank := fun _ => ⟨congrArg Reply.response said, idle⟩
      malformed := fun nonblank => absurd blank nonblank
      notification := fun _ found => (absent found).elim
      request := fun _ _ found => (absent found).elim
      change := fun moved => absurd moved idle.unchanged
      stops := idle.goes_on.trans unasked.symm
      one_line := fun e _ => lineEnd_not_mem_compact e }
  · have said : (Turn.read w t now line).reply =
        ⟨some (errorResponse .null .malformed), false, w, t⟩ := by
      rw [Turn.read, handleLine, if_neg blank, handle?, unread, Option.map_none]
    have idle := Turn.Idle.of_reply said
    exact {
      blank := fun h => absurd h blank
      malformed := fun _ _ => ⟨idle, _, _, congrArg Reply.response said,
        answers_errorResponse .null .malformed, rfl, rfl⟩
      notification := fun _ found => (absent found).elim
      request := fun _ _ found => (absent found).elim
      change := fun moved => absurd moved idle.unchanged
      stops := idle.goes_on.trans unasked.symm
      one_line := fun e _ => lineEnd_not_mem_compact e }

theorem not_blank_of_message? (h : message? line = some fields) : ¬(Text.trim line).isEmpty :=
  fun blank => by cases (message?_of_blank blank).symm.trans h

theorem isShutdown_of_message? (h : message? line = some fields) :
    isShutdown line = ((given fields "id").isSome && textField fields "method" == "shutdown") := by
  rw [isShutdown, h, Option.any_some]

/-- A message without an id. -/
theorem proper_notification (h : message? line = some fields) (unnamed : given fields "id" = none) :
    (Turn.read w t now line).Proper := by
  have nonblank := not_blank_of_message? h
  have said : (Turn.read w t now line).reply = ⟨none, false, w, t⟩ := by
    rw [Turn.read, handleLine, if_neg nonblank, handle?, ofText?_of_message? h, Option.map_some,
      unnamed]
  have idle := Turn.Idle.of_reply said
  have unasked : isShutdown line = false := by rw [isShutdown_of_message? h, unnamed]; rfl
  exact {
    blank := fun blank => absurd blank nonblank
    malformed := fun _ none => by cases h.symm.trans none
    notification := fun _ _ _ => ⟨congrArg Reply.response said, idle⟩
    request := fun other id found named => by
      obtain rfl := Option.some.inj (h.symm.trans found)
      cases unnamed.symm.trans named
    change := fun moved => absurd moved idle.unchanged
    stops := idle.goes_on.trans unasked.symm
    one_line := fun e _ => lineEnd_not_mem_compact e }

/-- A message with an id. -/
theorem proper_request {id : Json} (h : message? line = some fields)
    (named : given fields "id" = some id) : (Turn.read w t now line).Proper := by
  have nonblank := not_blank_of_message? h
  have said : (Turn.read w t now line).reply =
      reply w t now id (textField fields "method") (given fields "params") := by
    rw [Turn.read, handleLine, if_neg nonblank, handle?, ofText?_of_message? h, Option.map_some,
      named]
  obtain ⟨⟨e, response, answers⟩, ends, change⟩ :=
    reply_cases w t now id (textField fields "method") (given fields "params")
  rw [← said] at response ends change
  have asked : isShutdown line = (textField fields "method" == "shutdown") := by
    rw [isShutdown_of_message? h, named, Option.isSome_some, Bool.true_and]
  exact {
    blank := fun blank => absurd blank nonblank
    malformed := fun _ none => by cases h.symm.trans none
    notification := fun other found unnamed => by
      obtain rfl := Option.some.inj (h.symm.trans found)
      cases named.symm.trans unnamed
    request := fun other id' found named' => by
      obtain rfl := Option.some.inj (h.symm.trans found)
      obtain rfl := Option.some.inj (named.symm.trans named')
      exact ⟨e, response, answers⟩
    change := fun moved => by
      rcases change with ⟨workspace, tree⟩ | ⟨called, analysis⟩
      · rcases moved with moved | moved
        · exact absurd workspace moved
        · exact absurd tree moved
      · exact ⟨fields, h, by rw [named]; rfl, called, analysis⟩
    stops := ends.trans asked.symm
    one_line := fun e _ => lineEnd_not_mem_compact e }

end Kinds

/-- Every line is dealt with properly in every state. -/
theorem proper_read (line : List Char) : (Turn.read w t now line).Proper := by
  cases message : message? line with
  | none => exact proper_of_message?_eq_none w t now message
  | some fields =>
    cases named : given fields "id" with
    | none => exact proper_notification w t now message named
    | some id => exact proper_request w t now message named

/-! ### Sessions -/

/-- A line as it comes in: at which time, and what has happened to the files before. -/
structure Arrival where
  line : ByteArray
  now : Int
  edit : FileTree → FileTree

/-- The turns of a session, up to the first that ends it or a line that has no text. -/
def turns (w : Workspace) (t : FileTree) : List Arrival → List Turn
  | [] => []
  | a :: rest =>
    match lineText? a.line with
    | none => []
    | some text =>
      let u := Turn.read w (a.edit t) a.now text
      u :: if u.reply.stops then [] else turns u.reply.workspace u.reply.tree rest

/-- The lines that a turn writes. -/
def Turn.written (u : Turn) : List String := (u.reply.response.map Json.compact).toList

/-- The texts of lines, up to the first that has none. -/
def readable : List ByteArray → List (List Char)
  | [] => []
  | line :: rest =>
    match lineText? line with
    | none => []
    | some text => text :: readable rest

/-- Lines that all have a text are read as these. -/
theorem readable_eq {lines : List ByteArray} {texts : List (List Char)}
    (h : lines.map lineText? = texts.map some) : readable lines = texts := by
  induction lines generalizing texts with
  | nil => rw [List.map_eq_nil_iff.1 h.symm, readable]
  | cons line rest ih =>
    cases texts with
    | nil => cases h
    | cons text texts =>
      obtain ⟨first, later⟩ := List.cons.inj h
      rw [readable, first, ih later]

theorem proper_of_mem_turns {u : Turn} {arrivals : List Arrival} (h : u ∈ turns w t arrivals) :
    u.Proper := by
  induction arrivals generalizing w t with
  | nil => cases h
  | cons a rest ih =>
    rw [turns] at h
    cases read : lineText? a.line with
    | none =>
      rw [read] at h
      cases h
    | some text =>
      rw [read] at h
      rcases List.mem_cons.1 h with rfl | later
      · exact proper_read w (a.edit t) a.now text
      · split at later
        · cases later
        · exact ih _ _ later

/-- The texts up to the first request for the end are answered, and no others. -/
theorem map_line_turns (arrivals : List Arrival) : (turns w t arrivals).map Turn.line =
    (readable (arrivals.map Arrival.line)).take
      ((readable (arrivals.map Arrival.line)).findIdx isShutdown + 1) := by
  induction arrivals generalizing w t with
  | nil => rfl
  | cons a rest ih =>
    rw [turns, List.map_cons, readable]
    cases read : lineText? a.line with
    | none => rfl
    | some text =>
      have stops : (Turn.read w (a.edit t) a.now text).reply.stops = isShutdown text :=
        (proper_read w (a.edit t) a.now text).stops
      dsimp only
      rw [List.map_cons, List.findIdx_cons]
      cases ends : isShutdown text with
      | true =>
        rw [stops, ends, if_pos rfl]
        rfl
      | false =>
        rw [stops, ends, if_neg (by decide), ih]
        rfl

/-- The lines of a session that takes no time and during which nothing else changes the files. -/
def undisturbed (lines : List ByteArray) : List Arrival :=
  lines.map fun line => ⟨line, now, fun t => t⟩

/-- The files behind the turns of a session. -/
def treeAfter (t : FileTree) (turns : List Turn) : FileTree := turns.foldl (fun _ u => u.reply.tree) t

/-- A line without a text comes up before the session has ended. -/
def Broken (lines : List ByteArray) : Prop :=
  ∃ front line back, lines = front ++ line :: back ∧ lineText? line = none ∧
    ∀ l ∈ front, ∃ text, lineText? l = some text ∧ isShutdown text = false

theorem broken_nil : ¬Broken [] := by
  rintro ⟨front, line, back, whole, -⟩
  cases front <;> cases whole

/-- The first line breaks the session, or it is a text that does not end it before a later line does. -/
theorem broken_cons {line : ByteArray} {rest : List ByteArray} : Broken (line :: rest) ↔
    lineText? line = none ∨
      (∃ text, lineText? line = some text ∧ isShutdown text = false) ∧ Broken rest := by
  constructor
  · rintro ⟨front, bad, back, whole, none, before⟩
    cases front with
    | nil =>
      obtain ⟨rfl, -⟩ := List.cons.inj whole
      exact .inl none
    | cons first front =>
      obtain ⟨rfl, rfl⟩ := List.cons.inj whole
      exact .inr ⟨before _ List.mem_cons_self, front, bad, back, rfl, none,
        fun l mem => before l (List.mem_cons_of_mem _ mem)⟩
  · rintro (none | ⟨first, front, bad, back, rfl, none, before⟩)
    · exact ⟨[], line, rest, rfl, none, by simp⟩
    · exact ⟨line :: front, bad, back, rfl, none, List.forall_mem_cons.2 ⟨first, before⟩⟩

/-- The server writes what the turns write, leaves the files as they leave them, and fails if the session
is broken. -/
theorem serve_spec (lines : List ByteArray) :
    (serve w t now lines).written = (turns w t (undisturbed now lines)).flatMap Turn.written ∧
    (serve w t now lines).tree = treeAfter t (turns w t (undisturbed now lines)) ∧
    ((serve w t now lines).failed ↔ Broken lines) := by
  induction lines generalizing w t with
  | nil => exact ⟨rfl, rfl, by simp [serve, broken_nil]⟩
  | cons line rest ih =>
    have first : turns w t (undisturbed now (line :: rest)) =
        match lineText? line with
        | none => []
        | some text => Turn.read w t now text :: if (handleLine w t now text).stops then [] else
            turns (handleLine w t now text).workspace (handleLine w t now text).tree
              (undisturbed now rest) := rfl
    rw [first, serve, broken_cons]
    cases read : lineText? line with
    | none => exact ⟨rfl, rfl, by simp⟩
    | some text =>
      have ends : (handleLine w t now text).stops = isShutdown text := (proper_read w t now text).stops
      by_cases stops : (handleLine w t now text).stops
      · simp only [if_pos stops, List.flatMap_cons, List.flatMap_nil, List.append_nil]
        exact ⟨rfl, rfl, by simp [← ends, stops]⟩
      · obtain ⟨written, tree, failed⟩ := ih (handleLine w t now text).workspace
          (handleLine w t now text).tree
        simp only [if_neg stops, List.flatMap_cons, written]
        refine ⟨rfl, tree, failed.trans ?_⟩
        simp [← ends, stops]

/-- The contract of a session. Each line that is answered in a turn is dealt with properly, whatever the
state. The texts that are answered are those up to the first request for the end. They are the texts of
all lines up to there, as they are in an input that is a text, unless a line has none: at this one the
session fails, and nothing more is answered. The server writes what these turns write, in their
order. -/
theorem session_contract (w : Workspace) (t : FileTree) (arrivals : List Arrival) :
    (∀ u ∈ turns w t arrivals, u.Proper) ∧
    (turns w t arrivals).map Turn.line =
      (readable (arrivals.map Arrival.line)).take
        ((readable (arrivals.map Arrival.line)).findIdx isShutdown + 1) ∧
    (∀ texts, (arrivals.map Arrival.line).map lineText? = texts.map some →
      readable (arrivals.map Arrival.line) = texts) ∧
    (∀ input : String, readable (linesOf input.toUTF8) = Text.lines input.toList) ∧
    ∀ now lines,
      (serve w t now lines).written = (turns w t (undisturbed now lines)).flatMap Turn.written ∧
      (serve w t now lines).tree = treeAfter t (turns w t (undisturbed now lines)) ∧
      ((serve w t now lines).failed ↔ Broken lines) :=
  ⟨fun _ => proper_of_mem_turns w t, map_line_turns w t arrivals, fun _ => readable_eq,
    fun input => readable_eq (texts_linesOf input), fun now => serve_spec w t now⟩

/-- A byte that no text holds, on a line of its own. -/
def strayLine : ByteArray := ⟨#[0xff, 10]⟩

/-- A line with a request under an id. -/
def pingLine (id : String) : ByteArray := ("[\"2.0\"," ++ id ++ ",\"ping\",null]\n").toUTF8

/-- A session with no files. -/
def bareSession (lines : List ByteArray) : Session := serve (.create {} "") ⟨[], []⟩ 0 lines

/-- A stray byte keeps its line from being answered, and the request behind it as well. And under an id
beyond 64 bits, what is answered is another number. -/
theorem session_breaks :
    ((bareSession [strayLine, pingLine "7"]).written = [] ∧
      (bareSession [strayLine, pingLine "7"]).failed) ∧
    (bareSession [pingLine "7"]).written =
      ["\x7b\"jsonrpc\":\"2.0\",\"id\":7,\"result\":\x7b\x7d\x7d"] ∧
    (bareSession [pingLine "18446744073709551617"]).written =
      ["\x7b\"jsonrpc\":\"2.0\",\"id\":1.8446744073709552e+19,\"result\":\x7b\x7d\x7d"] := by
  have stray : lineText? strayLine = none := by
    have bytes : (String.fromUTF8? strayLine).isNone := by decide +kernel
    rw [lineText?, Option.isNone_iff_eq_none.1 bytes, Option.map_none]
  have short := lineText?_toUTF8 ("[\"2.0\"," ++ "7" ++ ",\"ping\",null]\n")
  have long := lineText?_toUTF8 ("[\"2.0\"," ++ "18446744073709551617" ++ ",\"ping\",null]\n")
  refine ⟨?_, ?_, ?_⟩
  · rw [bareSession, serve, stray]
    exact ⟨rfl, rfl⟩
  · rw [bareSession, pingLine, serve, short]
    decide +kernel
  · rw [bareSession, pingLine, serve, long]
    decide +kernel

/-- Only with an id does `shutdown` end a session; a message may also be a list of its fields. -/
example : ["[\"2.0\",null,\"shutdown\",null]", "[\"2.0\",7,\"shutdown\",[]]", "[7]", " "].map
    (fun line => isShutdown line.toList) = [false, true, false, false] := by
  decide +kernel

end Rpc
end SourceAtlas
