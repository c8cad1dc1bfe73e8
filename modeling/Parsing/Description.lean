/-
  Parsing.Description — PARSERS SHOWN TO A READER.

  A description shows of what a parser is made: its sort, and its parts by
  name.  Functions cannot be looked into, and a fixed word stands for them.
-/

namespace Parsing

/-- What is shown of a thing. -/
inductive Description where
  /-- A text, in quotes. -/
  | text (t : String)
  /-- A thing of a named sort with named parts. -/
  | parts (sort : String) (parts : List (String × Description))

namespace Description

mutual

/-- The written form of a description. -/
def render : Description → String
  | text t => "\"" ++ t ++ "\""
  | parts sort ps => sort ++ " \x7b " ++ renderParts ps ++ " \x7d"

/-- The written form of named parts, with commas between them. -/
def renderParts : List (String × Description) → String
  | [] => ""
  | [(name, d)] => name ++ ": " ++ render d
  | (name, d) :: ps => name ++ ": " ++ render d ++ ", " ++ renderParts ps

end

/-- What stands for a function. -/
def function : Description := text "<function>"

/-- The parser of a literal. -/
def tag (literal : String) : Description := parts "Tag" [("literal", text literal)]

/-- A parser whose errors a function changes. -/
def mapErr (p : Description) : Description :=
  parts "MapErr" [("parser", p), ("mapper", function)]

end Description

end Parsing
