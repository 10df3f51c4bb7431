/-!
# PoolAlloc.Display

How the values of the library are shown to a reader.

Design points:

* **One tree, two layouts.** A value is described once, as a `Doc`; `Doc.compact` writes it on one
  line and `Doc.pretty` writes one field or item a line.
* **A pointer knows that it is one**, because the two layouts write it differently: the pretty one
  pads the digits to the width of a word.
* **A record may hold back fields**, which shows as two dots after the ones it gives.
-/

namespace PoolAlloc

/-- A number in hexadecimal behind its mark, with at least `width` digits. -/
def hexPadded (width n : Nat) : String :=
  let digits := Nat.toDigits 16 n
  String.ofList ('0' :: 'x' :: List.replicate (width - digits.length) '0' ++ digits)

/-- A number in hexadecimal behind its mark, without leading zeros. -/
def hex (n : Nat) : String := hexPadded 1 n

/-- A description of a value, free of layout. -/
inductive Doc
  /-- A finished text. -/
  | atom (text : String)
  /-- An address. -/
  | pointer (address : Nat)
  /-- Named fields; `more` says that there are others which are not shown. -/
  | record (name : String) (fields : List (String × Doc)) (more : Bool)
  /-- A list of items. -/
  | list (items : List Doc)

namespace Doc

/-- A number in decimal digits. -/
def number (n : Nat) : Doc := atom (toString n)

/-- A truth value. -/
def bool (b : Bool) : Doc := atom (if b then "true" else "false")

/-- What stands for the fields that are not shown. -/
def ellipsis : String := ".."

mutual

/-- A value on one line. -/
def compact : Doc → String
  | atom text => text
  | pointer address => hex address
  | record name fields more =>
    match compactFields fields ++ (if more then [ellipsis] else []) with
    | [] => name
    | parts => name ++ " \x7b " ++ ", ".intercalate parts ++ " \x7d"
  | list items => "[" ++ ", ".intercalate (compactItems items) ++ "]"

/-- The fields of a record, each on one line. -/
def compactFields : List (String × Doc) → List String
  | [] => []
  | (label, value) :: rest => (label ++ ": " ++ value.compact) :: compactFields rest

/-- The items of a list, each on one line. -/
def compactItems : List Doc → List String
  | [] => []
  | item :: rest => item.compact :: compactItems rest

end

/-- The width of an address in hexadecimal digits. -/
def pointerDigits : Nat := 16

/-- A line that stands `depth` levels deep. -/
def line (depth : Nat) (text : String) : String :=
  "\n" ++ String.ofList (List.replicate (4 * depth) ' ') ++ text

/-- Parts one a line between two brackets, each closed by a comma; without parts, the brackets
close at once. -/
def block (depth : Nat) (opening closing : String) (parts : List String) : String :=
  match parts with
  | [] => opening ++ closing
  | _ => opening ++ String.join (parts.map (line (depth + 1))) ++ line depth closing

mutual

/-- A value with one field or item a line, of which the first line stands `depth` levels deep. -/
def pretty (depth : Nat) : Doc → String
  | atom text => text
  | pointer address => hexPadded pointerDigits address
  | record name fields more =>
    match prettyFields (depth + 1) fields ++ (if more then [ellipsis] else []) with
    | [] => name
    | parts => block depth (name ++ " \x7b") "\x7d" parts
  | list items => block depth "[" "]" (prettyItems (depth + 1) items)

/-- The fields of a record, laid out over lines. -/
def prettyFields (depth : Nat) : List (String × Doc) → List String
  | [] => []
  | (label, value) :: rest =>
    (label ++ ": " ++ value.pretty depth ++ ",") :: prettyFields depth rest

/-- The items of a list, laid out over lines. -/
def prettyItems (depth : Nat) : List Doc → List String
  | [] => []
  | item :: rest => (item.pretty depth ++ ",") :: prettyItems depth rest

end

end Doc

/-- Values that can be shown. -/
class Shown (α : Type) where
  /-- The description of a value. -/
  doc : α → Doc

instance {α : Type} [Shown α] : Shown (List α) where
  doc items := .list (items.map Shown.doc)

end PoolAlloc
