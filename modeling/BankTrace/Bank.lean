namespace BankTrace

def Bank.size : Nat := 0x4000

def Bank.origin : Nat := 0xC000

structure Bank where
  bytes : Vector UInt8 Bank.size

namespace Bank

/-- Only an image of exactly `Bank.size` bytes is a bank. -/
def ofBytes? (bytes : Array UInt8) : Option Bank :=
  if h : bytes.size = size then some ⟨⟨bytes, h⟩⟩ else none

/-- Offset that an address names; the copy of the bank at `$8000` has the same offsets. -/
def offsetOf (address : Nat) : Nat := address % size

/-- Address of an offset; offsets past the end wrap around. -/
def addressOf (offset : Nat) : Nat := origin + offset % size

def byte? (bank : Bank) (offset : Nat) : Option UInt8 := bank.bytes[offset]?

/-- The word whose low byte is at `offset`, if both bytes are inside the bank. -/
def word? (bank : Bank) (offset : Nat) : Option Nat := do
  let low ← bank.byte? offset
  let high ← bank.byte? (offset + 1)
  return low.toNat + 0x100 * high.toNat

def pointee? (bank : Bank) (offset : Nat) : Option Nat :=
  (bank.word? offset).map offsetOf

/-- Whether the word at `offset` is an address of the cartridge, `$8000` or above. -/
def isCartridge? (bank : Bank) (offset : Nat) : Option Bool :=
  (bank.byte? (offset + 1)).map fun high => 0x80 ≤ high

end Bank

def displacement (byte : UInt8) : Int :=
  if byte < 0x80 then byte.toNat else byte.toNat - 0x100

/-- Offset reached by a relative branch at `offset`, wrapped into the bank. -/
def branchOffset (offset : Nat) (byte : UInt8) : Nat :=
  ((offset + 2 + displacement byte) % Bank.size).toNat

end BankTrace
