import Handheld.Console.Basic
import Handheld.Text.Column

namespace Handheld.Console

variable {ρ : Type}

-- The terminal is a grid of columns; what does not fit is cut, what is missing is blank.

def isControl (c : Char) : Bool := c < ' ' || ('\x7f' ≤ c && c < '\xa0')

-- Control characters take no place on a screen.
def visible (text : String) : List Char := text.toList.filter (!isControl ·)

def title (console : Console ρ) : String :=
  if console.powered then s!" {console.game.machine.current} " else " off "

-- A console that is off shows nothing.
def pixelLines (console : Console ρ) : List (List Char) :=
  if console.powered then
    console.game.machine.display.rows.map fun row => row.map fun on => if on then '█' else ' '
  else []

-- The screen in its frame, `width` and `height` counting the frame.
def frame (width height : Nat) (title : List Char) (pixels : List (List Char)) : List (List Char) :=
  let inner := width - 2
  let row (number : Nat) := '│' :: Text.fit inner ' ' (pixels[number]?.getD []) ++ ['│']
  let top := '┌' :: Text.fit inner '─' title ++ ['┐']
  let bottom := '└' :: List.replicate inner '─' ++ ['┘']
  if height ≤ 1 then [top] else top :: (List.range (height - 2)).map row ++ [bottom]

def status (console : Console ρ) : String :=
  match console.error with
  | some error => s!"halted: {error.message}"
  | none =>
    if console.powered then s!"tick {console.ticks}  {console.bindings.legend}"
    else s!"power off  {console.bindings.legend}"

-- What a terminal of a given size shows: the framed screen, the status line, and blank lines.
def screen (console : Console ρ) (width height : Nat) : List String :=
  let display := console.game.machine.display
  let frameWidth := min width (display.width + 2)
  let frameHeight := if height ≤ 1 then 1 else min (display.height + 2) (height - 1)
  let framed := (frame frameWidth frameHeight (visible console.title) console.pixelLines).map
    (· ++ List.replicate (width - frameWidth) ' ')
  let lines := framed ++ [Text.fit width ' ' (visible console.status)]
  (List.range height).map fun number =>
    String.ofList (lines[number]?.getD (List.replicate width ' '))

end Handheld.Console
