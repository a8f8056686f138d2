/-!
# Comma-separated lines

A field is quoted where a comma, a quote or a line end in it would be read as something else. A line
without any characters is written as an empty quoted field, so that no line is blank.
-/

namespace CatalogQuery.Csv

def isSpecial (c : Char) : Bool := c == ',' || c == '"' || c == '\n' || c == '\r'

/-- A quote inside a quoted field is written twice. -/
def doubleQuotes : List Char → List Char
  | [] => []
  | '"' :: r => '"' :: '"' :: doubleQuotes r
  | c :: r => c :: doubleQuotes r

def field (s : String) : String :=
  if s.toList.any isSpecial then String.ofList ('"' :: (doubleQuotes s.toList ++ ['"'])) else s

def line (fields : List String) : String :=
  let text := ",".intercalate (fields.map field)
  (if text.isEmpty then "\"\"" else text) ++ "\n"

def document (lines : List (List String)) : String := String.join (lines.map line)

end CatalogQuery.Csv
