import BankTrace.Opcode
import BankTrace.PointerTable
import BankTrace.Text.Hexadecimal

namespace BankTrace

inductive Event
  | decoded (offset : Nat) (op : Opcode)
  /-- A walk was not started, because its first byte is inside an instruction. -/
  | insideInstruction (offset : Nat)
  /-- A byte that is not code was met at `offset`; the span from `first` to `last` is data again. -/
  | undone (byte : UInt8) (offset first last : Nat)
  | jumpTableWord (slot word : Nat)
  | boundariesLabelled (count : Nat)
  | seeded (slot word : Nat)
  | deepest (walks : Nat)
  | finished (instructions codeBytes dataBytes labels : Nat)
  | tableAccepted (table : PointerTable)
  | imageRead (bytes : Nat) (path : String)
  | settingsRead (path : String) (tables : Nat)
deriving DecidableEq, Repr

def Control.name : Control → String
  | next => "Plain"
  | reference => "Reference"
  | branch => "Branch"
  | jump => "Jump"
  | jumpIndirect => "IndirectJump"
  | call => "Call"
  | ret => "Return"
  | illegal => "Invalid"

namespace Event

def heading : Event → String
  | decoded .. => "TRACE prgtrace::tracer"
  | insideInstruction .. | undone .. | jumpTableWord .. => "DEBUG prgtrace::tracer"
  | boundariesLabelled .. => "DEBUG prgtrace::labels"
  | seeded .. | deepest .. => "DEBUG prgtrace::disassembler"
  | finished .. => "INFO prgtrace::disassembler"
  | tableAccepted .. => "DEBUG prgtrace::entry_points"
  | imageRead .. => "DEBUG prgtrace::rom"
  | settingsRead .. => "DEBUG prgtrace::config"

def message : Event → String
  | decoded offset op => s!"{Text.offset offset}: {op.mnemonic} ({op.control.name})"
  | insideInstruction offset => s!"{Text.offset offset} lands inside an instruction, ignored"
  | undone byte offset first last =>
    "Illegal opcode $" ++ Text.hexUpper 2 byte.toNat ++ " at " ++ Text.offset offset ++
      ", reverting " ++ Text.offset first ++ "..=" ++ Text.offset last
  | jumpTableWord slot word => s!"Jump table word at {Text.offset slot} -> {Text.offset word}"
  | boundariesLabelled count => s!"Labelled {count} code/data boundaries"
  | seeded slot word => s!"Tracing pointer at {Text.offset slot} -> {Text.offset word}"
  | deepest walks => s!"Deepest trace nesting: {walks}"
  | finished instructions codeBytes dataBytes labels =>
    s!"Traced {instructions} instructions ({codeBytes} code bytes, {dataBytes} data bytes, " ++
      s!"{labels} labels)"
  | tableAccepted table => s!"Pointer table at {Text.offset table.offset}, {table.count} entries"
  | imageRead bytes path => s!"Loaded {bytes} bytes from {path}"
  | settingsRead path tables => s!"Loaded {path} with {tables} pointer tables"

def line (e : Event) : String := e.heading ++ " " ++ e.message

def accepted (before after : Seeds) : List Event :=
  (after.extra.drop before.extra.length).map tableAccepted

end Event

end BankTrace
