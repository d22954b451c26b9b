import InkBindings.Bytes.Basic
/-!
Byte strings as hexadecimal text. Writing gives two lower-case digits a byte. Reading takes digits
of either case and lets blanks stand between the bytes, never inside one.
-/

namespace InkBindings.Hex

def digit (n : Nat) : Char :=
  if n < 10 then Char.ofNat (48 + n) else Char.ofNat (87 + n)

def digit? (c : Char) : Option Nat :=
  if '0' ≤ c ∧ c ≤ '9' then some (c.toNat - 48)
  else if 'a' ≤ c ∧ c ≤ 'f' then some (c.toNat - 87)
  else if 'A' ≤ c ∧ c ≤ 'F' then some (c.toNat - 55)
  else none

/-- The characters that may separate the bytes of a hexadecimal text. -/
def isBlank (c : Char) : Bool :=
  c == ' ' || (9 ≤ c.toNat && c.toNat ≤ 13)

def encodeByte (b : UInt8) : List Char :=
  [digit (b.toNat / 16), digit (b.toNat % 16)]

def encodeChars (b : Bytes) : List Char :=
  b.flatMap encodeByte

def encode (b : Bytes) : String :=
  String.ofList (encodeChars b)

/-- Reads from `position` on; a failure tells where the digit it wanted should have stood. -/
def decodeChars (position : Nat) : List Char → Except Nat Bytes
  | [] => .ok []
  | [c] => if isBlank c then .ok [] else
      if (digit? c).isSome then .error (position + 1) else .error position
  | c :: d :: rest =>
    if isBlank c then decodeChars (position + 1) (d :: rest)
    else
      match digit? c with
      | none => .error position
      | some high =>
        match digit? d with
        | none => .error (position + 1)
        | some low =>
          (decodeChars (position + 2) rest).map (UInt8.ofNat (16 * high + low) :: ·)

/-- A character outside ASCII is refused before any digit is looked at. -/
def decode (s : String) : Except Nat Bytes :=
  match s.toList.findIdx? (fun c => 128 ≤ c.toNat) with
  | some position => .error position
  | none => decodeChars 0 s.toList

/-- The text after a leading `0x` or `0X`, or the whole text where there is none. -/
def stripMark (s : String) : String :=
  match s.toList with
  | '0' :: 'x' :: rest => String.ofList rest
  | '0' :: 'X' :: rest => String.ofList rest
  | _ => s

def ofNat (n : Nat) : String :=
  String.ofList (Nat.toDigits 16 n)

end InkBindings.Hex
