import InkBindings.Bytes.Hex
/-!
Reading UTF-8, with the place and the reason of the first fault where the bytes are no text.
-/

namespace InkBindings.Utf8

inductive Reason
  | invalidStart
  | invalidContinuation
  | unexpectedEnd
  deriving DecidableEq, Repr

def Reason.message : Reason → String
  | .invalidStart => "invalid start byte"
  | .invalidContinuation => "invalid continuation byte"
  | .unexpectedEnd => "unexpected end of data"

/-- A sequence of bytes, from `start` up to but not including `stop`, that no character begins
with. -/
structure Fault where
  start : Nat
  stop : Nat
  firstByte : UInt8
  reason : Reason
  deriving DecidableEq, Repr

def Fault.message (f : Fault) : String :=
  let place :=
    if f.stop = f.start + 1 then
      "byte 0x" ++ Hex.encode [f.firstByte] ++ s!" in position {f.start}"
    else s!"bytes in position {f.start}-{f.stop - 1}"
  "'utf-8' codec can't decode " ++ place ++ ": " ++ f.reason.message

/-- A character whose first byte has been read: where it starts, how many bytes it still needs,
and the range of the next one. -/
structure Pending where
  start : Nat
  firstByte : UInt8
  missing : Nat
  low : UInt8
  high : UInt8

/-- What a first byte beyond ASCII promises. The narrow ranges keep out overlong forms, surrogates
and numbers that are no code points. -/
def Pending.ofFirst? (start : Nat) (b : UInt8) : Option Pending :=
  if b < 0xc2 then none
  else if b < 0xe0 then some ⟨start, b, 1, 0x80, 0xbf⟩
  else if b = 0xe0 then some ⟨start, b, 2, 0xa0, 0xbf⟩
  else if b = 0xed then some ⟨start, b, 2, 0x80, 0x9f⟩
  else if b < 0xf0 then some ⟨start, b, 2, 0x80, 0xbf⟩
  else if b = 0xf0 then some ⟨start, b, 3, 0x90, 0xbf⟩
  else if b < 0xf4 then some ⟨start, b, 3, 0x80, 0xbf⟩
  else if b = 0xf4 then some ⟨start, b, 3, 0x80, 0x8f⟩
  else none

/-- The state after a continuation byte in range: none between characters. -/
def Pending.next (p : Pending) : Option Pending :=
  if p.missing ≤ 1 then none
  else some { p with missing := p.missing - 1, low := 0x80, high := 0xbf }

/-- The first fault from `position` on. -/
def fault? (position : Nat) : Option Pending → Bytes → Option Fault
  | none, [] => none
  | some p, [] => some ⟨p.start, position, p.firstByte, .unexpectedEnd⟩
  | none, b :: rest =>
    if b < 0x80 then fault? (position + 1) none rest
    else
      match Pending.ofFirst? position b with
      | none => some ⟨position, position + 1, b, .invalidStart⟩
      | some p => fault? (position + 1) (some p) rest
  | some p, b :: rest =>
    if p.low ≤ b ∧ b ≤ p.high then fault? (position + 1) p.next rest
    else some ⟨p.start, position, p.firstByte, .invalidContinuation⟩

/-- Bytes that are no text have a fault; the default is never reached. -/
def faultOf (b : Bytes) : Fault :=
  (fault? 0 none b).getD ⟨0, 0, 0, .unexpectedEnd⟩

def decode (b : Bytes) : Except Fault String :=
  match Bytes.toText? b with
  | some s => .ok s
  | none => .error (faultOf b)

end InkBindings.Utf8
