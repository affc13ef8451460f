import SourceAtlas.Json.Decode
import SourceAtlas.Json.Reader
/-!
Messages of the JSON-RPC protocol: requests as they come in, and the two forms of a response.
-/

namespace SourceAtlas.Rpc

/-- A request; without an id it is a notification. -/
structure Request where
  id : Option Json
  method : String
  params : Option Json

/-- The names of a request's fields, in their order. -/
def Request.fieldNames : List String := ["jsonrpc", "id", "method", "params"]

/-- The request that a text holds. -/
def Request.ofText? (text : String) : Option Request := do
  let document ← Json.readRecord? fieldNames text.toList
  let fs ← document.writtenFields? fieldNames 4
  let _ ← Json.required fs "jsonrpc" Json.string?
  let id ← Json.unsettable fs "id" some
  let method ← Json.unsettable fs "method" Json.string?
  let params ← Json.unsettable fs "params" some
  return ⟨id, method.getD "", params⟩

/-- Why a request is answered by an error. -/
inductive RpcFault where
  | malformed
  | unknownMethod
  | missingParams
  | unknownTool (name : Json)
  | unknownResource (uri : String)

/-- The code of an error. -/
def RpcFault.code : RpcFault → Int
  | malformed => -32700
  | unknownMethod => -32601
  | _ => -32602

end SourceAtlas.Rpc
