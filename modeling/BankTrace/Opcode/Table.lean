import BankTrace.Opcode

namespace BankTrace.Opcode

def illegal : Opcode := ⟨"???", 0, .undefined, .illegal, false⟩

/-- A byte that has a length, and so ends a walk with something to step over, but is not code. -/
def inert (name : String) : Opcode := ⟨name, 1, .undefined, .illegal, false⟩

def plain (name : String) (mode : Mode) : Opcode := ⟨name, mode.length, mode, .next, false⟩

def implied (name : String) : Opcode := plain name .implied

def reads (name : String) (mode : Mode) : Opcode := ⟨name, mode.length, mode, .reference, false⟩

def branch (name : String) : Opcode := ⟨name, 2, .relative, .branch, false⟩

def ret (name : String) : Opcode := ⟨name, 1, .implied, .ret, false⟩

def jsr : Opcode := ⟨"JSR", 3, .absolute, .call, false⟩

def jmp : Opcode := ⟨"JMP", 3, .absolute, .jump, false⟩

def jmpIndirect : Opcode := ⟨"JMP", 3, .indirect, .jumpIndirect, false⟩

def withTwin (op : Opcode) : Opcode := { op with wide := true }

set_option maxRecDepth 4096 in
/-- One entry for each byte, in order. -/
def table : Vector Opcode 256 := #v[
  -- $00
  inert "BRK", plain "ORA" .indirectX, illegal, illegal, illegal, plain "ORA" .zeroPage,
  plain "ASL" .zeroPage, illegal, implied "PHP", plain "ORA" .immediate, implied "ASL", illegal,
  illegal, withTwin (reads "ORA" .absolute), withTwin (reads "ASL" .absolute), illegal,
  -- $10
  branch "BPL", plain "ORA" .indirectY, illegal, illegal, illegal, plain "ORA" .zeroPageX,
  plain "ASL" .zeroPageX, illegal, implied "CLC", reads "ORA" .absoluteY, illegal, illegal,
  illegal, withTwin (reads "ORA" .absoluteX), withTwin (reads "ASL" .absoluteX), illegal,
  -- $20
  jsr, plain "AND" .indirectX, illegal, illegal, plain "BIT" .zeroPage, plain "AND" .zeroPage,
  plain "ROL" .zeroPage, illegal, implied "PLP", plain "AND" .immediate, implied "ROL", illegal,
  withTwin (reads "BIT" .absolute), withTwin (reads "AND" .absolute),
  withTwin (reads "ROL" .absolute), illegal,
  -- $30
  branch "BMI", plain "AND" .indirectY, illegal, illegal, illegal, plain "AND" .zeroPageX,
  plain "ROL" .zeroPageX, illegal, implied "SEC", reads "AND" .absoluteY, illegal, illegal,
  illegal, withTwin (reads "AND" .absoluteX), withTwin (reads "ROL" .absoluteX), illegal,
  -- $40
  ret "RTI", plain "EOR" .indirectX, illegal, illegal, illegal, plain "EOR" .zeroPage,
  plain "LSR" .zeroPage, illegal, implied "PHA", plain "EOR" .immediate, implied "LSR", illegal,
  jmp, withTwin (reads "EOR" .absolute), withTwin (reads "LSR" .absolute), illegal,
  -- $50
  branch "BVC", plain "EOR" .indirectY, illegal, illegal, illegal, plain "EOR" .zeroPageX,
  plain "LSR" .zeroPageX, illegal, implied "CLI", reads "EOR" .absoluteY, illegal, illegal,
  illegal, withTwin (reads "EOR" .absoluteX), withTwin (reads "LSR" .absoluteX), illegal,
  -- $60
  ret "RTS", plain "ADC" .indirectX, illegal, illegal, illegal, plain "ADC" .zeroPage,
  plain "ROR" .zeroPage, illegal, implied "PLA", plain "ADC" .immediate, implied "ROR", illegal,
  jmpIndirect, withTwin (reads "ADC" .absolute), withTwin (reads "ROR" .absolute), illegal,
  -- $70
  branch "BVS", plain "ADC" .indirectY, illegal, illegal, illegal, plain "ADC" .zeroPageX,
  plain "ROR" .zeroPageX, illegal, implied "SEI", reads "ADC" .absoluteY, illegal, illegal,
  illegal, withTwin (reads "ADC" .absoluteX), withTwin (reads "ROR" .absoluteX), illegal,
  -- $80
  illegal, plain "STA" .indirectX, illegal, illegal, plain "STY" .zeroPage, plain "STA" .zeroPage,
  plain "STX" .zeroPage, illegal, implied "DEY", inert "???", implied "TXA", illegal,
  withTwin (plain "STY" .absolute), withTwin (plain "STA" .absolute),
  withTwin (plain "STX" .absolute), illegal,
  -- $90
  branch "BCC", plain "STA" .indirectY, illegal, illegal, plain "STY" .zeroPageX,
  plain "STA" .zeroPageX, plain "STX" .zeroPageY, illegal, implied "TYA", plain "STA" .absoluteY,
  implied "TXS", illegal, illegal, withTwin (plain "STA" .absoluteX), illegal, illegal,
  -- $A0
  plain "LDY" .immediate, plain "LDA" .indirectX, plain "LDX" .immediate, illegal,
  plain "LDY" .zeroPage, plain "LDA" .zeroPage, plain "LDX" .zeroPage, illegal, implied "TAY",
  plain "LDA" .immediate, implied "TAX", illegal, withTwin (reads "LDY" .absolute),
  withTwin (reads "LDA" .absolute), withTwin (reads "LDX" .absolute), illegal,
  -- $B0
  branch "BCS", plain "LDA" .indirectY, illegal, illegal, plain "LDY" .zeroPageX,
  plain "LDA" .zeroPageX, plain "LDX" .zeroPageY, illegal, implied "CLV", reads "LDA" .absoluteY,
  implied "TSX", illegal, withTwin (reads "LDY" .absoluteX), withTwin (reads "LDA" .absoluteX),
  withTwin (reads "LDX" .absoluteY), illegal,
  -- $C0
  plain "CPY" .immediate, plain "CMP" .indirectX, illegal, illegal, plain "CPY" .zeroPage,
  plain "CMP" .zeroPage, plain "DEC" .zeroPage, illegal, implied "INY", plain "CMP" .immediate,
  implied "DEX", illegal, withTwin (reads "CPY" .absolute), withTwin (reads "CMP" .absolute),
  withTwin (plain "DEC" .absolute), illegal,
  -- $D0
  branch "BNE", plain "CMP" .indirectY, illegal, illegal, illegal, plain "CMP" .zeroPageX,
  plain "DEC" .zeroPageX, illegal, implied "CLD", reads "CMP" .absoluteY, illegal, illegal,
  illegal, withTwin (reads "CMP" .absoluteX), withTwin (plain "DEC" .absoluteX), illegal,
  -- $E0
  plain "CPX" .immediate, plain "SBC" .indirectX, illegal, illegal, plain "CPX" .zeroPage,
  plain "SBC" .zeroPage, plain "INC" .zeroPage, illegal, implied "INX", plain "SBC" .immediate,
  implied "NOP", illegal, withTwin (reads "CPX" .absolute), withTwin (reads "SBC" .absolute),
  withTwin (plain "INC" .absolute), illegal,
  -- $F0
  branch "BEQ", plain "SBC" .indirectY, illegal, illegal, illegal, plain "SBC" .zeroPageX,
  plain "INC" .zeroPageX, illegal, implied "SED", reads "SBC" .absoluteY, illegal, illegal,
  illegal, withTwin (reads "SBC" .absoluteX), withTwin (plain "INC" .absoluteX), illegal]

def ofByte (byte : UInt8) : Opcode := table.get byte.toFin

end BankTrace.Opcode
