namespace BankTrace.Toml

inductive Value
  | text (value : String)
  | integer (value : Int)
  | boolean (value : Bool)
  /-- A floating-point number; no setting is one, so its value is not kept. -/
  | float
  | dateTime
  | array (items : List Value)
  | table (entries : List (String × Value))
deriving Repr

end BankTrace.Toml
