import Handheld.Expr.Value
import Handheld.Game.Shape

namespace Handheld

namespace Display

-- The cells of a display are counted and found in machine words, whose arithmetic wraps.
def word (n : Nat) : Nat := n % UInt64.size

def cellCount (width height : Nat) : Nat := word (width * height)

def cellAt (width row column : Nat) : Nat := word (row * width + column)

end Display

-- A screen of pixels that are on or off, stored row by row.
structure Display where
  width : Nat
  height : Nat
  cells : Vector Bool (Display.cellCount width height)
  deriving DecidableEq

namespace Display

def blank (width height : Nat) : Display := ⟨width, height, .replicate _ false⟩

def clear (display : Display) : Display := blank display.width display.height

-- Where the number of cells has wrapped, the cell of a pixel need not be there, and a program that asks for
-- it ends.
def hasCell (display : Display) (row column : Nat) : Bool :=
  cellAt display.width row column < cellCount display.width display.height

-- Outside the screen no pixel is on.
def isOn (display : Display) (row column : Nat) : Bool :=
  row < display.height && column < display.width &&
    (display.cells[cellAt display.width row column]?).getD false

def set (display : Display) (row column : Nat) (on : Bool) : Display :=
  if row < display.height ∧ column < display.width then
    ⟨display.width, display.height, display.cells.setIfInBounds (cellAt display.width row column) on⟩
  else display

-- The place that is so far from an origin, if there is one below the limit. All of it is in the arithmetic
-- of values, where what overflows is no place.
def offset? (origin : Value) (delta limit : Nat) : Option Nat := do
  let delta ← Value.ofInt? delta
  let position ← Value.ofInt? (origin.toInt + delta.toInt)
  if 0 ≤ position.toInt ∧ position.toInt.toNat < limit then some position.toInt.toNat else none

-- The cells of a row that the pixels of a shape turn on, each pixel with its number.
def rowCells (width row : Nat) (x : Value) (pixels : List (Pixel × Nat)) : List Nat :=
  pixels.flatMap fun (pixel, dx) =>
    if pixel.isOpaque then (offset? x dx width).toList.map (cellAt width row ·) else []

-- The cells that a shape turns on, one after the other, each row of the shape with its number.
def shapeCells (width height : Nat) (x y : Value) (rows : List (List Pixel × Nat)) : List Nat :=
  rows.flatMap fun (pixels, dy) =>
    (offset? y dy height).toList.flatMap fun row => rowCells width row x pixels.zipIdx

def turnOn {count : Nat} (cells : Vector Bool count) (indices : List Nat) : Vector Bool count :=
  indices.foldl (fun cells index => cells.setIfInBounds index true) cells

-- Turns on the pixels under a shape whose upper left corner stands at column `x` and row `y`.
def overlay (display : Display) (shape : Shape) (x y : Value) : Display :=
  ⟨display.width, display.height,
    turnOn display.cells (shapeCells display.width display.height x y shape.rows.zipIdx)⟩

-- Whether all cells that a shape turns on are there. A program that overlays the shape ends at the first
-- that is not.
def canOverlay (display : Display) (shape : Shape) (x y : Value) : Bool :=
  (shapeCells display.width display.height x y shape.rows.zipIdx).all
    (· < cellCount display.width display.height)

-- The pixels by rows: pieces of the row of cells, of which there are at most as many as rows.
def rows (display : Display) : List (List Bool) :=
  let width := max display.width 1
  let pieces := (cellCount display.width display.height + (width - 1)) / width
  (List.range (min display.height pieces)).map fun row =>
    (display.cells.toArray.extract (row * width) ((row + 1) * width)).toList

def litCount (display : Display) : Nat := display.cells.toList.count true

def text (display : Display) : String :=
  "\n".intercalate (display.rows.map fun row =>
    String.ofList (row.map fun on => if on then '#' else '.'))

end Display

end Handheld
