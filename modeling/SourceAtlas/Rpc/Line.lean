import SourceAtlas.Text.Basic
/-!
Lines of input. A line is read as bytes, up to the line feed that ends it or up to the end of the
input. Only bytes that are UTF-8 have a text; nothing can be answered to others.
-/

namespace SourceAtlas.Rpc

/-- A sequence cut behind each occurrence of an item. -/
def cutBehind [DecidableEq α] (stop : α) : List α → List (List α)
  | [] => []
  | a :: rest =>
    if a = stop then [a] :: cutBehind stop rest
    else match cutBehind stop rest with
      | [] => [[a]]
      | piece :: pieces => (a :: piece) :: pieces

/-- The lines of an input, each with the line feed that ends it. -/
def linesOf (input : ByteArray) : List ByteArray :=
  (cutBehind 10 input.data.toList).map List.toByteArray

/-- The text of a line, without its end. Bytes that are no UTF-8 have none. -/
def lineText? (line : ByteArray) : Option (List Char) :=
  (String.fromUTF8? line).map fun text => Text.dropLineEnd text.toList

/-- What is said about a line that has no text. -/
def noTextMessage : String := "stream did not contain valid UTF-8"

end SourceAtlas.Rpc
