import BankTrace.Assembly.Style

namespace BankTrace

structure Settings where
  style : Style := {}
  tables : List PointerTable := []
deriving DecidableEq, Repr

/-- How settings are written: a reader of texts, which may say why it cannot read one. In an empty
text nothing is set. -/
structure SettingsFormat where
  read : String → Except String Settings
  read_empty : read "" = .ok {}

end BankTrace
