namespace ArchiveOverlay.Toml

/-- How a table came about, which decides what may still be added to it. -/
inductive TableForm where
  /-- Written between braces: it is complete. -/
  | inline
  /-- Has a header of its own. -/
  | headed
  /-- Only lies on the way to a table with a header. -/
  | implied
  /-- Only lies on the way to a key. -/
  | dotted
  deriving DecidableEq, Repr

/-- A value of a document. Nothing here reads floating point numbers or dates, so they are only
known to be there. -/
inductive Value where
  | string (s : String)
  | integer (n : Int)
  | float
  | boolean (b : Bool)
  | dateTime
  /-- A row of values, or of tables that each have a header. -/
  | array (headed : Bool) (items : List Value)
  | table (form : TableForm) (fields : List (String × Value))

/-- The keys of a table with their values. -/
abbrev Fields := List (String × Value)

/-- Gives a key that is there a new value. -/
def Fields.replace (key : String) (v : Value) (fields : Fields) : Fields :=
  fields.map fun (other, old) => if other = key then (other, v) else (other, old)

end ArchiveOverlay.Toml
