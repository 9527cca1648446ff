/-!
Written forms of records: on one line, or with every field on a line of its own.
-/
namespace LinkedQueues.Text

inductive Record
  | atom (text : String)
  /-- A value inside a constructor of one argument. -/
  | wrapped (name : String) (inner : Record)
  /-- Two dots end the fields of a `partly` shown record. -/
  | fields (name : String) (entries : List (String × Record)) (partly : Bool)

namespace Record

mutual

def compact : Record → String
  | atom text => text
  | wrapped name inner => name ++ "(" ++ inner.compact ++ ")"
  | fields name entries partly =>
    let shown := compactEntries entries ++ if partly then [".."] else []
    name ++ " \x7b " ++ ", ".intercalate shown ++ " \x7d"

def compactEntries : List (String × Record) → List String
  | [] => []
  | (name, value) :: rest => (name ++ ": " ++ value.compact) :: compactEntries rest

end

/-- One level deeper, with a comma after the last line. -/
def nest : List String → List String
  | [] => []
  | [line] => ["    " ++ line ++ ","]
  | line :: rest => ("    " ++ line) :: nest rest

def label (name : String) : List String → List String
  | [] => []
  | line :: rest => (name ++ ": " ++ line) :: rest

mutual

def lines : Record → List String
  | atom text => [text]
  | wrapped name inner => [name ++ "("] ++ nest inner.lines ++ [")"]
  | fields name entries partly =>
    [name ++ " \x7b"] ++ lineEntries entries ++ (if partly then ["    .."] else []) ++ ["\x7d"]

def lineEntries : List (String × Record) → List String
  | [] => []
  | (name, value) :: rest => nest (label name value.lines) ++ lineEntries rest

end

def expanded (r : Record) : String := "\n".intercalate r.lines

def write (r : Record) (onLines : Bool) : String := if onLines then r.expanded else r.compact

def ofNat (n : Nat) : Record := atom (toString n)

def ofBool (b : Bool) : Record := atom (if b then "true" else "false")

/-- Absence is written as `None`. -/
def ofOption : Option Record → Record
  | none => atom "None"
  | some r => wrapped "Some" r

end Record

end LinkedQueues.Text
