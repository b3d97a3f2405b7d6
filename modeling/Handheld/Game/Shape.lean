import Handheld.Text.BlankChars
import Handheld.Text.Quoted

namespace Handheld

inductive Pixel where
  | transparent
  | white
  | black
  deriving DecidableEq, Repr

namespace Pixel

def char : Pixel → Char
  | transparent => '.'
  | white => '+'
  | black => '#'

def ofChar? : Char → Option Pixel
  | '.' => some transparent
  | '+' => some white
  | '#' => some black
  | _ => none

def isOpaque (pixel : Pixel) : Bool := pixel ≠ transparent

theorem ofChar?_eq_some_iff {c : Char} {pixel : Pixel} : ofChar? c = some pixel ↔ c = pixel.char := by
  unfold ofChar?
  split <;> cases pixel <;> simp_all [char]

end Pixel

-- A character that is no pixel, with its row and column in the shape, counted from one.
structure InvalidPixel where
  character : Char
  row : Nat
  column : Nat
  deriving DecidableEq, Repr

def InvalidPixel.message (invalid : InvalidPixel) : String :=
  let character := Text.quotedChar invalid.character
  s!"invalid pixel {character} at row {invalid.row}, column {invalid.column}"

-- A picture; its rows may differ in length.
structure Shape where
  rows : List (List Pixel)
  deriving DecidableEq, Repr

namespace Shape

def isBlank (c : Char) : Bool := Text.blankChars.contains c

def trim (text : List Char) : List Char :=
  ((text.dropWhile isBlank).reverse.dropWhile isBlank).reverse

def lines : List Char → List (List Char)
  | [] => [[]]
  | c :: rest =>
    if c = '\n' then [] :: lines rest
    else match lines rest with
      | [] => [[c]]
      | line :: more => (c :: line) :: more

def readRow (row column : Nat) : List Char → Except InvalidPixel (List Pixel)
  | [] => .ok []
  | c :: rest =>
    match Pixel.ofChar? c with
    | none => .error ⟨c, row, column⟩
    | some pixel => (readRow row (column + 1) rest).map (pixel :: ·)

def readRows (row : Nat) : List (List Char) → Except InvalidPixel (List (List Pixel))
  | [] => .ok []
  | line :: rest => do return (← readRow row 1 line) :: (← readRows (row + 1) rest)

def read (text : String) : Except InvalidPixel Shape :=
  (readRows 1 (lines (trim text.toList))).map Shape.mk

def text (shape : Shape) : String :=
  "\n".intercalate (shape.rows.map fun row => String.ofList (row.map Pixel.char))

def height (shape : Shape) : Nat := shape.rows.length

def width (shape : Shape) : Nat := (shape.rows.map List.length).foldl max 0

end Shape

end Handheld
