/-!
# Shown records

A record is shown by its name and, between braces, its fields by name and value.
-/

namespace SecondaryIndex

/-- The name and the fields of a record, as they are shown. -/
def showRecord (name : String) (fields : List (String × String)) : String :=
  name ++ " \x7b " ++ String.intercalate ", " (fields.map fun f => f.1 ++ ": " ++ f.2) ++ " \x7d"

end SecondaryIndex
