import Mathlib.Tactic

/-!
# Reply codes

The results of engine operations, `include/commands.h`. They are sets of bits; most failures carry
the bit of `FZ_REPLY_ERROR`.
-/

namespace FlintZilla.Reply

def ok : Nat := 0x0000
def wouldBlock : Nat := 0x0001
def error : Nat := 0x0002
def criticalError : Nat := 0x0004 ||| error
def canceled : Nat := 0x0008 ||| error
def disconnected : Nat := 0x0040
def internalError : Nat := 0x0080 ||| error
def passwordFailed : Nat := 0x0400
def timeout : Nat := 0x0800 ||| error
def notSupported : Nat := 0x1000 ||| error
def linkNotDir : Nat := 0x4000 ||| error
def continue_ : Nat := 0x8000
def errorNotFound : Nat := 0x10000 ||| error

/-- `code & flag` as a condition. -/
def has (code flag : Nat) : Bool := code &&& flag != 0

end FlintZilla.Reply
