import BankTrace.Analysis
import BankTrace.Assembly.Style
import BankTrace.Assembly.Line
import BankTrace.Text.Hexadecimal

namespace BankTrace.Assembly

def symbol (offset : Nat) : String := "L" ++ Text.hexUpper 4 (Bank.addressOf offset)

def hexByte (value : Nat) : String := "$" ++ Text.hexUpper 2 value

def hexWord (value : Nat) : String := "$" ++ Text.hexUpper 4 value

def signed (value : Int) : String :=
  if value < 0 then toString value else "+" ++ toString value

/-- The parts of a line between which styles differ. -/
inductive Piece
  | text (s : String)
  | indent
  | define (offset : Nat)
  | refer (offset : Nat)
  | openBracket
  | closeBracket
  | lineEnd
deriving DecidableEq, Repr

def Place.pieces : Place → List Piece
  | word value => [.text (hexWord value)]
  | label offset adjustment =>
    .refer offset :: if adjustment = 0 then [] else [.text (signed adjustment)]

def Index.text : Index → String
  | none => ""
  | x => ",X"
  | y => ",Y"

def Operand.pieces : Operand → List Piece
  | none => []
  | immediate value => [.text (" #" ++ hexByte value)]
  | zeroPage value index => [.text (" " ++ hexByte value ++ index.text)]
  | absolute wide place index =>
    .text (if wide then ".W " else " ") :: place.pieces ++ [.text index.text]
  | indirect address => [.text " ", .openBracket, .text (hexWord address), .closeBracket]
  | indirectX value => [.text " ", .openBracket, .text (hexByte value ++ ",X"), .closeBracket]
  | indirectY value =>
    [.text " ", .openBracket, .text (hexByte value), .closeBracket, .text ",Y"]
  | branch target => [.text " ", .refer target]
  | skip distance => [.text (" $" ++ signed distance)]

def Line.pieces : Line → List Piece
  | blank => [.lineEnd]
  | origin => [.text (".ORG " ++ hexWord Bank.origin), .lineEnd]
  | finish => [.text ".END", .lineEnd]
  | label offset => [.define offset, .text ":", .lineEnd]
  | pointer place => .text ".DW " :: place.pieces ++ [.lineEnd]
  | values bytes =>
    [.text (".DB " ++ ",".intercalate (bytes.map fun byte => hexByte byte.toNat)), .lineEnd]
  | instruction mnemonic operand =>
    .indent :: .text mnemonic :: operand.pieces ++ [.lineEnd]

def Piece.render (style : Style) : Piece → String
  | text s => s
  | indent => match style.medium with
    | .text => "    "
    | .html => "&nbsp;&nbsp;&nbsp;&nbsp;"
  | define offset => match style.medium with
    | .text => symbol offset
    | .html => "<A NAME=" ++ symbol offset ++ ">" ++ symbol offset
  | refer offset => match style.medium with
    | .text => symbol offset
    | .html => "<A HREF=\"#" ++ symbol offset ++ "\">" ++ symbol offset ++ "</A>"
  | openBracket => match style.brackets with
    | .square => "["
    | .round => "("
  | closeBracket => match style.brackets with
    | .square => "]"
    | .round => ")"
  | lineEnd => match style.medium with
    | .text => "\n"
    | .html => "<BR>\n"

def opening : Medium → String
  | .text => ""
  | .html => "<HTML>\n<BODY>\n<FONT FACE=\"Courier\">\n"

def closing : Medium → String
  | .text => ""
  | .html => "</FONT>\n</BODY>\n</HTML>\n"

def render (style : Style) (lines : List Line) : String :=
  String.join (opening style.medium :: (lines.flatMap Line.pieces).map (Piece.render style)) ++
    closing style.medium

end Assembly

def Bank.listing? {n : Nat} (bank : Bank) (s : Survey n) (style : Style) : Option String :=
  (Assembly.lines? bank s).map (Assembly.render style)

/-- Analyses a bank and lists it. -/
def Bank.disassembly? (bank : Bank) (seeds : Seeds) (style : Style) : Option String := do
  let analysis ← bank.analyze? seeds
  bank.listing? analysis.survey style

end BankTrace
