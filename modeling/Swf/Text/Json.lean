import Swf.Text.Hexadecimal

/-!
# JSON documents

Documents are printed with one member a line, two spaces further in for each level. Characters
beyond ASCII are kept as they are.
-/

namespace Swf.Text

/-- A JSON document. Numbers carry their text. -/
inductive Json where
  | bool (value : Bool)
  | number (text : String)
  | string (text : String)
  | list (items : List Json)
  | record (fields : List (String × Json))

namespace Json

/-- A natural number. -/
def nat (n : Nat) : Json := .number (toString n)

/-- An integer. -/
def int (n : Int) : Json := .number (toString n)

/-- A character as it stands in a string. -/
def escapedChar (c : Char) : String :=
  match c with
  | '"' => "\\\""
  | '\\' => "\\\\"
  | '\n' => "\\n"
  | '\r' => "\\r"
  | '\t' => "\\t"
  | '\x08' => "\\b"
  | '\x0c' => "\\f"
  | c => if c.toNat < 0x20 then "\\u00" ++ hexByte c.toNat.toUInt8 else c.toString

/-- A string between quotation marks. -/
def escaped (text : String) : String :=
  "\"" ++ String.join (text.toList.map escapedChar) ++ "\""

/-- A line break and the spaces of a level. -/
def lineBreak (level : Nat) : String := "\n" ++ String.ofList (List.replicate (2 * level) ' ')

/-- Members between brackets, one a line; an empty list stays on its line. -/
def bracketed (level : Nat) (left right : String) (members : List String) : String :=
  if members.isEmpty then left ++ right
  else
    left ++ String.intercalate "," (members.map (lineBreak (level + 1) ++ ·)) ++
      lineBreak level ++ right

mutual

/-- The text of a document at some level. -/
def render (level : Nat) : Json → String
  | .bool value => if value then "true" else "false"
  | .number text => text
  | .string text => escaped text
  | .list items => bracketed level "[" "]" (renderItems (level + 1) items)
  | .record fields => bracketed level "\x7b" "\x7d" (renderFields (level + 1) fields)

/-- The texts of the items of a list. -/
def renderItems (level : Nat) : List Json → List String
  | [] => []
  | item :: items => render level item :: renderItems level items

/-- The texts of the fields of a record. -/
def renderFields (level : Nat) : List (String × Json) → List String
  | [] => []
  | (name, item) :: fields =>
    (escaped name ++ ": " ++ render level item) :: renderFields level fields

end

end Json

end Swf.Text
