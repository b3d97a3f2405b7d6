import Handheld.Text.CombiningChars
import Handheld.Text.WideChars

namespace Handheld.Text

def padRight (width : Nat) (text : String) : String :=
  text ++ String.ofList (List.replicate (width - text.length) ' ')

-- Characters without a column that are not combining: joiners, other formatting characters and the later
-- letters of Hangul syllables.
def joiningChars : CharSet := .ofRanges [
  (0xad, 0xad), (0x1160, 0x11ff), (0x200b, 0x200f), (0x202a, 0x202e), (0x2060, 0x206f),
  (0x3164, 0x3164), (0xd7b0, 0xd7c6), (0xd7cb, 0xd7fb), (0xfeff, 0xfeff), (0xffa0, 0xffa0)]

def columns (c : Char) : Nat :=
  if combiningChars.contains c || joiningChars.contains c then 0
  else if wideChars.contains c then 2
  else 1

-- The start of a text that fits into some columns, and how many are left over. After a wide character and
-- what combines with it there is a blank, for which `blanks` stands.
def fitting (room blanks : Nat) : List Char → List Char × Nat
  | [] => (List.replicate blanks ' ', room)
  | c :: rest =>
    let width := columns c
    if width = 0 then
      let (line, left) := fitting room blanks rest
      (c :: line, left)
    else if room < width then (List.replicate blanks ' ', room)
    else
      let (line, left) := fitting (room - width) (width - 1) rest
      (List.replicate blanks ' ' ++ c :: line, left)

def fit (width : Nat) (fill : Char) (text : List Char) : List Char :=
  let (line, left) := fitting width 0 text
  line ++ List.replicate left fill

end Handheld.Text
