import SourceAtlas.Rpc.Call
import SourceAtlas.Rpc.Line
import SourceAtlas.Rpc.Message
/-!
The server: one message per line, one answer to each request, none to a notification. Serving ends
with a `shutdown` request or with the input, or it fails at a line that has no text.
-/

namespace SourceAtlas.Rpc

/-- The version of the protocol. -/
def protocolVersion : String := "2024-11-05"

/-- The name of the program. -/
def programName : String := "tsgraph"

/-- The version of the program. -/
def programVersion : String := "0.1.0"

/-- A response with a result. -/
def resultResponse (id result : Json) : Json :=
  .object [("jsonrpc", .string "2.0"), ("id", id), ("result", result)]

/-- The wording of an error. What the reader of JSON found wrong with a line, which stands behind
`Parse error: `, is left out. -/
def RpcFault.message : RpcFault → String
  | malformed => "Parse error: "
  | unknownMethod => "Method not found"
  | missingParams => "Invalid params"
  | unknownTool name => "Unknown tool: " ++ name.compact
  | unknownResource uri => "Unknown resource: " ++ uri

/-- A response with an error. -/
def errorResponse (id : Json) (fault : RpcFault) : Json :=
  .object [("jsonrpc", .string "2.0"), ("id", id),
    ("error", .object [("code", .int fault.code), ("message", .string fault.message)])]

/-- Either response. -/
def respond (id : Json) : Except RpcFault Json → Json
  | .ok result => resultResponse id result
  | .error fault => errorResponse id fault

/-- The result of `initialize`. -/
def initializeResult : Json :=
  .object [("protocolVersion", .string protocolVersion),
    ("capabilities", .object [("tools", .object []), ("resources", .object [])]),
    ("serverInfo", .object [("name", .string programName), ("version", .string programVersion)])]

/-- What a tool reports, as text. -/
def toolResult (payload : Json) : Json :=
  .object [("content", .array [.object [("type", .string "text"), ("text", .string payload.pretty)]]),
    ("isError", .bool ((payload.get? "success").bind Json.bool? == some false))]

/-- The content of a resource. -/
def resourceContent (w : Workspace) : Resource → Json
  | .stats => w.catalog.stats.toJson
  | .routes =>
    match w.atlas with
    | .ok atlas => .array ((atlas.routes none none).map RouteRecord.toJson)
    | .error _ => .array []

/-- The result of reading a resource. -/
def readResource (w : Workspace) (r : Resource) : Json :=
  .object [("contents", .array [.object [("uri", .string r.uri),
    ("mimeType", .string "application/json"), ("text", .string (resourceContent w r).pretty)]])]

/-- What a message leads to. -/
structure Reply where
  response : Option Json
  /-- No further message is read. -/
  stops : Bool := false
  workspace : Workspace
  tree : FileTree

/-- The answer to a request that only asks for the server itself or its resources. -/
def answer (w : Workspace) (method : String) (params : Option Json) : Except RpcFault Json :=
  match method with
  | "initialize" => .ok initializeResult
  | "ping" => .ok (.object [])
  | "tools/list" => .ok (.object [("tools", .array (Tool.all.map Tool.toJson))])
  | "resources/list" => .ok (.object [("resources", .array (Resource.all.map Resource.toJson))])
  | "resources/read" =>
    let uri := ((params.getD .null).field "uri").string?.getD ""
    match Resource.ofUri? uri with
    | some r => .ok (readResource w r)
    | none => .error (.unknownResource uri)
  | _ => .error .unknownMethod

/-- The call that `tools/call` asks for. -/
def requestedCall (params : Option Json) : Except RpcFault (Tool × Arguments) :=
  match params with
  | none => .error .missingParams
  | some p =>
    match ((p.field "name").string?).bind Tool.ofName? with
    | some tool => .ok (tool, ((p.field "arguments").object?).getD [])
    | none => .error (.unknownTool (p.field "name"))

/-- The reply to a request with an id. -/
def reply (w : Workspace) (t : FileTree) (now : Int) (id : Json) (method : String)
    (params : Option Json) : Reply :=
  match method with
  | "tools/call" =>
    match requestedCall params with
    | .ok (tool, arguments) =>
      let (w, t, payload) := call w t now arguments tool
      ⟨some (resultResponse id (toolResult payload)), false, w, t⟩
    | .error fault => ⟨some (errorResponse id fault), false, w, t⟩
  | "shutdown" => ⟨some (resultResponse id .null), true, w, t⟩
  | method => ⟨some (respond id (answer w method params)), false, w, t⟩

/-- The reply to a message; a text that is no message has none. -/
def handle? (w : Workspace) (t : FileTree) (now : Int) (text : String) : Option Reply :=
  (Request.ofText? text).map fun r =>
    match r.id with
    | none => ⟨none, false, w, t⟩
    | some id => reply w t now id r.method r.params

/-- The reply to a line of input. A blank line says nothing; one that is no message is answered by
an error without an id. -/
def handleLine (w : Workspace) (t : FileTree) (now : Int) (line : List Char) : Reply :=
  if (Text.trim line).isEmpty then ⟨none, false, w, t⟩
  else match handle? w t now (.ofList line) with
    | some r => r
    | none => ⟨some (errorResponse .null .malformed), false, w, t⟩

/-- What a session comes to. -/
structure Session where
  /-- The lines that were written. -/
  written : List String
  /-- The files afterwards. -/
  tree : FileTree
  /-- A line had no text. -/
  failed : Bool

/-- The session on lines of input. Each is answered in its turn, up to the first that stops the server;
one that has no text is not answered, and no more lines are read. -/
def serve (w : Workspace) (t : FileTree) (now : Int) : List ByteArray → Session
  | [] => ⟨[], t, false⟩
  | line :: rest =>
    match lineText? line with
    | none => ⟨[], t, true⟩
    | some text =>
      let r := handleLine w t now text
      let written := (r.response.map Json.compact).toList
      if r.stops then ⟨written, r.tree, false⟩
      else
        let later := serve r.workspace r.tree now rest
        { later with written := written ++ later.written }

end SourceAtlas.Rpc
