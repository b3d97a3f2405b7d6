namespace Handheld.Text

-- A character of which some bytes have been read: the code so far,
-- how many bytes are still to come and the limits of the next one.
structure PartialChar where
  code : Nat
  missing : Nat
  low : Nat
  high : Nat
  deriving DecidableEq, Repr

namespace PartialChar

-- The byte that a character of more than one byte begins with. No code has a longer form than it
-- needs, none is a surrogate and none is beyond the last.
def begin? (byte : Nat) : Option PartialChar :=
  if 0xc2 ≤ byte ∧ byte ≤ 0xdf then some ⟨byte - 0xc0, 1, 0x80, 0xbf⟩
  else if byte = 0xe0 then some ⟨0, 2, 0xa0, 0xbf⟩
  else if byte = 0xed then some ⟨0xd, 2, 0x80, 0x9f⟩
  else if 0xe1 ≤ byte ∧ byte ≤ 0xef then some ⟨byte - 0xe0, 2, 0x80, 0xbf⟩
  else if byte = 0xf0 then some ⟨0, 3, 0x90, 0xbf⟩
  else if 0xf1 ≤ byte ∧ byte ≤ 0xf3 then some ⟨byte - 0xf0, 3, 0x80, 0xbf⟩
  else if byte = 0xf4 then some ⟨4, 3, 0x80, 0x8f⟩
  else none

def add (part : PartialChar) (byte : Nat) : PartialChar :=
  ⟨64 * part.code + (byte - 0x80), part.missing - 1, 0x80, 0xbf⟩

end PartialChar

def replacement : Char := '\ufffd'

def decodeFrom (part : Option PartialChar) : List Nat → List Char
  | [] => if part.isSome then [replacement] else []
  | byte :: rest =>
    match part.filter fun part => part.low ≤ byte ∧ byte ≤ part.high with
    | some part =>
      let part := part.add byte
      if part.missing = 0 then .ofNat part.code :: decodeFrom none rest else decodeFrom part rest
    | none =>
      let lost := if part.isSome then [replacement] else []
      if byte < 0x80 then lost ++ .ofNat byte :: decodeFrom none rest
      else match PartialChar.begin? byte with
        | some part => lost ++ decodeFrom part rest
        | none => lost ++ replacement :: decodeFrom none rest

-- Reads bytes as UTF-8. As many bytes as could still begin
-- a character, and do not, stand for one unknown character.
def decode (bytes : List UInt8) : String := String.ofList (decodeFrom none (bytes.map UInt8.toNat))

end Handheld.Text
