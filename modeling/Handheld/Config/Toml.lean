import Handheld.Config.Path
import Handheld.Data.Dict

namespace Handheld.Config

-- How a table came to be. A table is opened by its own header at
-- most once, and never after it has been given keys from outside.
inductive Origin where
  -- named on the way to another table
  | implied
  | header
  | dotted
  deriving DecidableEq, Repr

-- A configuration value, as TOML writes it. Paths with indices make lists, in which a value may be absent.
inductive Toml where
  | integer (n : Int)
  | text (s : String)
  | truth (b : Bool)
  | table (origin : Origin) (entries : List (String × Toml))
  | list (items : List Toml)
  | absent

namespace Toml

-- The kinds of token in a document. Bare words are keys and plain values alike.
inductive Kind where
  | word
  | basic
  | literal
  | dot
  | equals
  | opening
  | closing
  | comment
  | lineBreak
  deriving DecidableEq, Repr

-- Control characters other than the tab cannot stand in a line.
def controls : List CharClass :=
  [.range '\x00' '\x08', .range '\x0a' '\x1f', .char '\x7f']

def except (chars : List Char) : Pattern :=
  .one (.compl (.ofItems (controls ++ chars.map .char)))

def wordChars : List CharClass :=
  [.range 'A' 'Z', .range 'a' 'z', .range '0' '9', .char '_', .char '-', .char '+']

def basicString : Pattern :=
  .seq (.text "\"")
    (.seq (.star (.either (except ['"', '\\']) (.seq (.text "\\") (except [])))) (.text "\""))

def literalString : Pattern := .seq (.text "'") (.seq (.star (except ['\''])) (.text "'"))

def lexer : Lexer Kind where
  rules := [
    (.word, .many (.oneOf wordChars)),
    (.basic, basicString),
    (.literal, literalString),
    (.dot, .text "."),
    (.equals, .text "="),
    (.opening, .text "["),
    (.closing, .text "]"),
    (.comment, .seq (.text "#") (.star (except []))),
    (.lineBreak, .seq (.optional (.text "\r")) (.text "\n"))]
  ignored := [.many (.one (.ofChars [' ', '\t']))]
  endMarker := none

def hexValue? (c : Char) : Option Nat :=
  if c.isDigit then some (c.toNat - '0'.toNat)
  else if 'a' ≤ c ∧ c ≤ 'f' then some (c.toNat - 'a'.toNat + 10)
  else if 'A' ≤ c ∧ c ≤ 'F' then some (c.toNat - 'A'.toNat + 10)
  else none

-- A number may be divided by single underscores between its digits.
def digits? (base : Nat) (chars : List Char) : Option Nat :=
  let digit? (c : Char) : Option Nat := (hexValue? c).filter (· < base)
  let rec go (sum : Nat) : List Char → Option Nat
    | [] => some sum
    | '_' :: c :: rest => do go (base * sum + (← digit? c)) rest
    | c :: rest => do go (base * sum + (← digit? c)) rest
  match chars with
  | [] => none
  | c :: rest => do go (← digit? c) rest

def decimal? (chars : List Char) : Option Nat :=
  match chars with
  | '0' :: _ :: _ => none
  | chars => digits? 10 chars

def number? (chars : List Char) : Option Int :=
  match chars with
  | '+' :: rest => (decimal? rest).map Int.ofNat
  | '-' :: rest => (decimal? rest).map fun n => -(n : Int)
  | '0' :: 'x' :: rest => (digits? 16 rest).map Int.ofNat
  | '0' :: 'o' :: rest => (digits? 8 rest).map Int.ofNat
  | '0' :: 'b' :: rest => (digits? 2 rest).map Int.ofNat
  | chars => (decimal? chars).map Int.ofNat

def integer? (chars : List Char) : Option Int :=
  (number? chars).filter fun n => Int64.minValue.toInt ≤ n ∧ n ≤ Int64.maxValue.toInt

def codePoint? (digits : List Char) : Option Char := do
  let code ← digits.foldlM (fun sum c => (hexValue? c).map (16 * sum + ·)) 0
  if code.isValidChar then some (.ofNat code) else none

-- The inside of a string in double quotes.
def unescape? : List Char → Option (List Char)
  | [] => some []
  | '\\' :: 'b' :: rest => (unescape? rest).map ('\x08' :: ·)
  | '\\' :: 't' :: rest => (unescape? rest).map ('\t' :: ·)
  | '\\' :: 'n' :: rest => (unescape? rest).map ('\n' :: ·)
  | '\\' :: 'f' :: rest => (unescape? rest).map ('\x0c' :: ·)
  | '\\' :: 'r' :: rest => (unescape? rest).map ('\r' :: ·)
  | '\\' :: '"' :: rest => (unescape? rest).map ('"' :: ·)
  | '\\' :: '\\' :: rest => (unescape? rest).map ('\\' :: ·)
  | '\\' :: 'u' :: a :: b :: c :: d :: rest => do
    return (← codePoint? [a, b, c, d]) :: (← unescape? rest)
  | '\\' :: 'U' :: a :: b :: c :: d :: e :: f :: g :: h :: rest => do
    return (← codePoint? [a, b, c, d, e, f, g, h]) :: (← unescape? rest)
  | '\\' :: _ => none
  | c :: rest => (unescape? rest).map (c :: ·)

-- The text between the quotes of a string token.
def inside (token : Token Kind) : List Char := token.lexeme.toList.tail.dropLast

def string? (token : Token Kind) : Option String :=
  match token.kind with
  | .basic => (unescape? (inside token)).map String.ofList
  | .literal => some (String.ofList (inside token))
  | _ => none

def key? (token : Token Kind) : Option String :=
  match token.kind with
  | .word => if token.lexeme.contains '+' then none else some token.lexeme
  | _ => string? token

def value? : List (Token Kind) → Option Toml
  | [token] =>
    match token.kind with
    | .word => match token.lexeme with
      | "true" => some (.truth true)
      | "false" => some (.truth false)
      | word => (integer? word.toList).map .integer
    | _ => (string? token).map .text
  | _ => none

def dotted? : List (Token Kind) → Option (List String × List (Token Kind))
  | [] => none
  | token :: rest => do
    let key ← key? token
    match rest with
    | next :: after =>
      if next.kind = .dot then
        let (keys, rest) ← dotted? after
        return (key :: keys, rest)
      else return ([key], rest)
    | [] => return ([key], [])

def mostKeys : Nat := 79

-- The keys at the start of a line; a table can be nested only so deep.
def keys? (tokens : List (Token Kind)) : Option (List String × List (Token Kind)) :=
  (dotted? tokens).filter (·.1.length ≤ mostKeys)

abbrev Entries := List (String × Toml)

def openTable? : List String → Entries → Option Entries
  | [], _ => none
  | [key], entries =>
    match Dict.lookupIn key entries with
    | none => some (Dict.insertIn key (table .header []) entries)
    | some (table .implied inner) => some (Dict.insertIn key (table .header inner) entries)
    | some _ => none
  | key :: keys, entries =>
    match Dict.lookupIn key entries with
    | none => do return Dict.insertIn key (table .implied (← openTable? keys [])) entries
    | some (table origin inner) => do
      return Dict.insertIn key (table origin (← openTable? keys inner)) entries
    | some _ => none

-- Gives a table a value under a dotted key. A key is given once. A table with a header of its own takes no
-- keys from elsewhere, and one named on the way to another takes tables only.
def insertDotted? (value : Toml) : List String → Entries → Option Entries
  | [], _ => none
  | [key], entries =>
    match Dict.lookupIn key entries with
    | none => some (Dict.insertIn key value entries)
    | some _ => none
  | key :: keys, entries =>
    match Dict.lookupIn key entries with
    | none => do return Dict.insertIn key (table .dotted (← insertDotted? value keys [])) entries
    | some (table .header _) => none
    | some (table origin inner) =>
      if origin = .implied ∧ keys.length = 1 then none
      else do return Dict.insertIn key (table origin (← insertDotted? value keys inner)) entries
    | some _ => none

-- Changes the table at the path of a header that has been opened.
def within? (change : Entries → Option Entries) : List String → Entries → Option Entries
  | [], entries => change entries
  | key :: keys, entries =>
    match Dict.lookupIn key entries with
    | some (table origin inner) => do
      return Dict.insertIn key (table origin (← within? change keys inner)) entries
    | _ => none

structure Draft where
  entries : Entries
  path : List String

def Draft.empty : Draft := ⟨[], []⟩

def line? (draft : Draft) (tokens : List (Token Kind)) : Option Draft :=
  match tokens with
  | [] => some draft
  | first :: rest =>
    if first.kind = .opening then do
      let (keys, rest) ← keys? rest
      match rest with
      | [last] =>
        if last.kind = .closing then return ⟨← openTable? keys draft.entries, keys⟩ else none
      | _ => none
    else do
      let (keys, rest) ← keys? tokens
      match rest with
      | sign :: rest =>
        if sign.kind = .equals then
          let value ← value? rest
          return ⟨← within? (insertDotted? value keys) draft.path draft.entries, draft.path⟩
        else none
      | [] => none

-- The tokens by lines, without comments.
def lines : List (Token Kind) → List (List (Token Kind))
  | [] => [[]]
  | token :: rest =>
    match token.kind with
    | .lineBreak => [] :: lines rest
    | .comment => lines rest
    | _ => match lines rest with
      | [] => [[token]]
      | line :: more => (token :: line) :: more

-- A byte order mark may stand before the text.
def withoutMark (source : String) : String :=
  match source.toList with
  | '\ufeff' :: rest => String.ofList rest
  | _ => source

-- Reads a document of tables, dotted keys, integers, truth values and one-line strings.
def read? (source : String) : Option Toml :=
  match lexer.tokens (withoutMark source) with
  | .error _ => none
  | .ok tokens => do
    let draft ← (lines tokens).foldlM line? .empty
    return table .header draft.entries

-- Names are compared without case. None of them has a letter beyond ASCII, and there is just one such
-- letter, the sign of the kelvin, whose small form is in ASCII.
def smallChar (c : Char) : Char := if c = '\u212a' then 'k' else c.toLower

def smallKey (key : String) : String := String.ofList (key.toList.map smallChar)

def entries : Toml → Entries
  | table _ entries => entries
  | _ => []

def items : Toml → List Toml
  | list items => items
  | _ => []

mutual

-- Puts a value in the place of another. A table is merged
-- into what was there, entry by entry; all else replaces it.
def mergeInto (existing : Option Toml) : Toml → Toml
  | table origin entries => mergeEntries (existing.getD (table origin [])) entries
  | scalar => scalar

def mergeEntries (existing : Toml) : List (String × Toml) → Toml
  | [] => existing
  | (key, value) :: rest =>
    let known := existing.entries
    let merged := mergeInto (Dict.lookupIn (smallKey key) known) value
    mergeEntries (table .implied (Dict.insertIn (smallKey key) merged known)) rest

end

def setItem (n : Nat) (item : Toml) (items : List Toml) : List Toml :=
  (items ++ List.replicate (n + 1 - items.length) absent).set n item

-- Puts a value at a path. What stands on the way and is not
-- the table or list that the path asks for gives way to one.
def put (value : Toml) : Path → (existing : Option Toml) → Toml
  | [], existing => value.mergeInto existing
  | .key name :: path, existing =>
    let known := (existing.getD absent).entries
    let inner := put value path (Dict.lookupIn (smallKey name) known)
    table .implied (Dict.insertIn (smallKey name) inner known)
  | .index n :: path, existing =>
    let known := (existing.getD absent).items
    let place := (if n < 0 then n + known.length else n).toNat
    -- a value at the end of the path is not merged with an item
    let inner := put value path (if path.isEmpty then none else known[place]?)
    list (setItem place inner known)

def get? (value : Toml) (key : String) : Option Toml := Dict.lookupIn key value.entries

end Toml

end Handheld.Config
