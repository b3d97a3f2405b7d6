import Handheld.Proofs.Data.Except
import Handheld.Proofs.Game.Shape
import Handheld.Proofs.Lexer.Tiling
import Mathlib.Data.List.DropRight

namespace Handheld.Shape

open Text

variable {text line : List Char} {rows : List (List Char)} {grid : List (List Pixel)} {c : Char}
  {row column : Nat} {invalid : InvalidPixel} {source : String} {shape : Shape}

-- A text with white space at neither end.
structure Trimmed (text : List Char) : Prop where
  first : ∀ hne : text ≠ [], ¬ isBlank (text.head hne)
  last : ∀ hne : text ≠ [], ¬ isBlank (text.getLast hne)

theorem trim_eq (text : List Char) : trim text = (text.dropWhile isBlank).rdropWhile isBlank := rfl

theorem trim_of_trimmed (h : Trimmed text) : trim text = text := by
  have hfirst : text.dropWhile isBlank = text := List.dropWhile_eq_self_iff.mpr fun hpos => by
    rw [← List.head_eq_getElem (List.ne_nil_of_length_pos hpos)]
    exact h.first _
  rw [trim_eq, hfirst, List.rdropWhile_eq_self_iff.mpr h.last]

theorem trimmed_trim (text : List Char) : Trimmed (trim text) := by
  refine ⟨fun hne => ?_, List.rdropWhile_last_not isBlank _⟩
  have hstart : trim text <+: text.dropWhile isBlank := List.rdropWhile_prefix isBlank _
  rw [hstart.head hne]
  simp [List.head_dropWhile_not isBlank (hstart.ne_nil hne)]

theorem exists_trim (text : List Char) : ∃ front back, text = front ++ trim text ++ back ∧
    (∀ c ∈ front, isBlank c) ∧ ∀ c ∈ back, isBlank c := by
  refine ⟨text.takeWhile isBlank, (text.dropWhile isBlank).rtakeWhile isBlank, ?_,
    fun c => List.mem_takeWhile_imp, fun c => List.mem_rtakeWhile_imp⟩
  rw [trim_eq, List.append_assoc, List.rdropWhile_append_rtakeWhile, List.takeWhile_append_dropWhile]

theorem lines_eq_splitOn (text : List Char) : lines text = text.splitOn '\n' := by
  induction text with
  | nil => rfl
  | cons c text ih =>
      simp only [lines, ih, List.splitOn_eq_splitOnP, List.splitOnP_cons_eq_if_modifyHead]
      by_cases hc : c = '\n'
      · simp [hc]
      · obtain ⟨line, more, hlines⟩ := List.exists_cons_of_ne_nil (List.splitOnP_ne_nil (· == '\n') text)
        simp [hc, hlines]

-- The characters that shapes are written with.
def InShape (c : Char) : Prop := c = '.' ∨ c = '+' ∨ c = '#' ∨ c = '\n'

theorem inShape_iff : InShape c ↔ c = '\n' ∨ ∃ pixel : Pixel, c = pixel.char := by
  constructor
  · rintro (rfl | rfl | rfl | rfl)
    · exact .inr ⟨.transparent, rfl⟩
    · exact .inr ⟨.white, rfl⟩
    · exact .inr ⟨.black, rfl⟩
    · exact .inl rfl
  · rintro (rfl | ⟨pixel, rfl⟩)
    · simp [InShape]
    · cases pixel <;> simp [InShape, Pixel.char]

theorem ofChar?_eq_none_iff (hbreak : c ≠ '\n') : Pixel.ofChar? c = none ↔ ¬ InShape c := by
  simp [inShape_iff, hbreak, Option.eq_none_iff_forall_ne_some, Pixel.ofChar?_eq_some_iff]

theorem readRow_eq_ok_iff {pixels : List Pixel} :
    readRow row column line = .ok pixels ↔ line = pixels.map Pixel.char := by
  induction line generalizing column pixels with
  | nil => simp [readRow, eq_comm]
  | cons c line ih =>
      have hcons : c :: line = pixels.map Pixel.char ↔
          ∃ pixel rest, Pixel.ofChar? c = some pixel ∧ line = rest.map Pixel.char ∧
            pixel :: rest = pixels := by
        simp only [Pixel.ofChar?_eq_some_iff]
        constructor
        · intro h
          obtain ⟨pixel, rest, hpixels, hpixel, hrest⟩ := List.map_eq_cons_iff.mp h.symm
          exact ⟨pixel, rest, hpixel.symm, hrest.symm, hpixels.symm⟩
        · rintro ⟨pixel, rest, rfl, rfl, rfl⟩
          rfl
      rw [readRow, hcons]
      cases Pixel.ofChar? c with
      | none => simp
      | some pixel => simp [map_eq_ok_iff, ih]

theorem readRows_eq_ok_iff : readRows row rows = .ok grid ↔ rows = grid.map (List.map Pixel.char) := by
  induction rows generalizing row grid with
  | nil => simp [readRows, eq_comm]
  | cons line rows ih =>
      simp only [readRows, bind_eq_ok_iff, readRow_eq_ok_iff, ih]
      constructor
      · rintro ⟨first, rfl, rest, rfl, hgrid⟩
        obtain rfl := Except.ok.inj hgrid
        rfl
      · intro h
        obtain ⟨first, rest, rfl, hfirst, hrest⟩ := List.map_eq_cons_iff.mp h.symm
        exact ⟨first, hfirst.symm, rest, hrest.symm, rfl⟩

-- A text is read as the shape that it draws, line by line.
theorem read_eq_ok_iff : read source = .ok shape ↔
    (trim source.toList).splitOn '\n' = shape.rows.map (List.map Pixel.char) := by
  rw [read, lines_eq_splitOn, map_eq_ok_iff]
  constructor
  · rintro ⟨grid, hgrid, rfl⟩
    exact readRows_eq_ok_iff.mp hgrid
  · intro h
    exact ⟨shape.rows, readRows_eq_ok_iff.mpr h, rfl⟩

theorem toList_text (shape : Shape) :
    shape.text.toList = ['\n'].intercalate (shape.rows.map (List.map Pixel.char)) := by
  rw [text, String.toList_intercalate, List.map_map]
  exact congrArg _ (List.map_congr_left fun row _ => String.toList_ofList)

theorem toList_text_of_read (h : read source = .ok shape) : shape.text.toList = trim source.toList := by
  rw [toList_text, ← read_eq_ok_iff.mp h, List.intercalate_splitOn]

theorem newline_notMem_map_char (pixels : List Pixel) : '\n' ∉ pixels.map Pixel.char := by
  intro h
  obtain ⟨pixel, _, hpixel⟩ := List.mem_map.mp h
  cases pixel <;> simp [Pixel.char] at hpixel

theorem read_text_of_trimmed (hne : shape.rows ≠ []) (h : Trimmed shape.text.toList) :
    read shape.text = .ok shape := by
  rw [read_eq_ok_iff, trim_of_trimmed h, toList_text]
  refine List.splitOn_intercalate '\n' ?_ (by simpa using hne)
  simp only [List.forall_mem_map]
  exact fun pixels _ => newline_notMem_map_char pixels

theorem not_isBlank_char (pixel : Pixel) : ¬ isBlank pixel.char := by
  cases pixel <;> decide

theorem prefix_intercalate {separator first : List Char} {parts : List (List Char)}
    (h : parts.head? = some first) : first <+: separator.intercalate parts := by
  obtain ⟨rest, rfl⟩ := List.head?_eq_some_iff.mp h
  by_cases hrest : rest = []
  · simp [hrest]
  · rw [List.intercalate_cons_of_ne_nil hrest, List.append_assoc]
    exact List.prefix_append ..

theorem suffix_intercalate {separator last : List Char} {parts : List (List Char)}
    (h : parts.getLast? = some last) : last <:+ separator.intercalate parts := by
  induction parts with
  | nil => simp at h
  | cons part parts ih =>
      by_cases hparts : parts = []
      · obtain rfl : part = last := by simpa [hparts] using h
        simp [hparts]
      · rw [List.getLast?_cons_of_ne_nil hparts] at h
        rw [List.intercalate_cons_of_ne_nil hparts]
        exact (ih h).trans (List.suffix_append ..)

-- Between two rows that are not empty a shape is drawn with white space at neither end.
theorem trimmed_text {first last : List Pixel} (hfirst : shape.rows.head? = some first)
    (hlast : shape.rows.getLast? = some last) (hfirst' : first ≠ []) (hlast' : last ≠ []) :
    Trimmed shape.text.toList := by
  have hstart : first.map Pixel.char <+: shape.text.toList :=
    toList_text shape ▸ prefix_intercalate (by rw [List.head?_map, hfirst]; rfl)
  have hend : last.map Pixel.char <:+ shape.text.toList :=
    toList_text shape ▸ suffix_intercalate (by rw [List.getLast?_map, hlast]; rfl)
  constructor
  · intro hne
    rw [← hstart.head (by simpa using hfirst'), List.head_map]
    exact not_isBlank_char _
  · intro hne
    rw [← hend.getLast (by simpa using hlast'), List.getLast_map]
    exact not_isBlank_char _

-- Reads the rows of a shape from some column of the first one on: what is left to read after some
-- characters of a text.
def readFrom (row column : Nat) : List (List Char) → Except InvalidPixel (List (List Pixel))
  | [] => .ok []
  | line :: rest => do return (← readRow row column line) :: (← readRows (row + 1) rest)

theorem readFrom_one (row : Nat) (rows : List (List Char)) : readFrom row 1 rows = readRows row rows := by
  cases rows <;> rfl

theorem readFrom_cons_eq_error_iff : readFrom row column ((c :: line) :: rows) = .error invalid ↔
    (Pixel.ofChar? c = none ∧ invalid = ⟨c, row, column⟩) ∨
      ((Pixel.ofChar? c).isSome ∧ readFrom row (column + 1) (line :: rows) = .error invalid) := by
  cases hpixel : Pixel.ofChar? c with
  | none =>
      have hrow : readRow row column (c :: line) = .error ⟨c, row, column⟩ := by simp [readRow, hpixel]
      simp only [readFrom, hrow, bind_eq_error_iff]
      simp [eq_comm]
  | some pixel =>
      have hrow : readRow row column (c :: line) = (readRow row (column + 1) line).map (pixel :: ·) := by
        simp [readRow, hpixel]
      simp [readFrom, hrow, bind_eq_error_iff, map_eq_error_iff, map_eq_ok_iff, pure, Except.pure]

theorem readFrom_break_eq_error_iff :
    readFrom row column ([] :: rows) = .error invalid ↔ readRows (row + 1) rows = .error invalid := by
  simp [readFrom, readRow, bind_eq_error_iff, pure, Except.pure]

-- The first character of a text that no shape is written with, and its place.
def FirstInvalid (position : Position) (text : List Char) (invalid : InvalidPixel) : Prop :=
  ∃ before after, text = before ++ invalid.character :: after ∧ (∀ c ∈ before, InShape c) ∧
    ¬ InShape invalid.character ∧ position.advance before = ⟨invalid.row, invalid.column⟩

theorem firstInvalid_cons_iff {position : Position} : FirstInvalid position (c :: text) invalid ↔
    (¬ InShape c ∧ invalid = ⟨c, position.line, position.column⟩) ∨
      (InShape c ∧ FirstInvalid (position.step c) text invalid) := by
  constructor
  · rintro ⟨before, after, htext, hbefore, hinvalid, hplace⟩
    rcases List.cons_eq_append_iff.mp htext with ⟨rfl, hafter⟩ | ⟨before, rfl, htext'⟩
    · obtain ⟨hc, -⟩ := List.cons.inj hafter
      have hposition : position = ⟨invalid.row, invalid.column⟩ := hplace
      rw [← hc, hposition]
      exact .inl ⟨hinvalid, rfl⟩
    · obtain ⟨hc, hbefore⟩ := List.forall_mem_cons.mp hbefore
      exact .inr ⟨hc, before, after, htext', hbefore, hinvalid, hplace⟩
  · rintro (⟨hc, rfl⟩ | ⟨hc, before, after, rfl, hbefore, hinvalid, hplace⟩)
    · exact ⟨[], text, rfl, by simp, hc, rfl⟩
    · exact ⟨c :: before, after, rfl, List.forall_mem_cons.mpr ⟨hc, hbefore⟩, hinvalid, hplace⟩

-- The rows are read in the order of the text: the induction is on its characters, each of which either
-- starts a row or moves one column on.
theorem readFrom_eq_error_iff :
    readFrom row column (lines text) = .error invalid ↔ FirstInvalid ⟨row, column⟩ text invalid := by
  induction text generalizing row column with
  | nil => simp [lines, readFrom, readRow, readRows, FirstInvalid, bind, Except.bind, pure, Except.pure]
  | cons c text ih =>
      rw [firstInvalid_cons_iff, Position.step]
      by_cases hc : c = '\n'
      · have hshape : InShape c := inShape_iff.mpr (.inl hc)
        have hlines : lines (c :: text) = [] :: lines text := if_pos hc
        rw [hlines, readFrom_break_eq_error_iff, ← readFrom_one, ih, if_pos hc]
        simp [hshape]
      · have hne : lines text ≠ [] := lines_eq_splitOn text ▸ List.splitOn_ne_nil '\n' text
        obtain ⟨line, more, hlines⟩ := List.exists_cons_of_ne_nil hne
        have hlines' : lines (c :: text) = (c :: line) :: more := by rw [lines, if_neg hc, hlines]
        have hshape := ofChar?_eq_none_iff hc
        rw [hlines', readFrom_cons_eq_error_iff, ← hlines, ih, if_neg hc, hshape,
          Option.isSome_iff_ne_none, ne_eq, hshape, not_not]

theorem read_eq_error_iff :
    read source = .error invalid ↔ FirstInvalid .start (trim source.toList) invalid := by
  rw [read, map_eq_error_iff, ← readFrom_one, readFrom_eq_error_iff]
  rfl

theorem exists_firstInvalid_iff {position : Position} :
    (∃ invalid, FirstInvalid position text invalid) ↔ ∃ c ∈ text, ¬ InShape c := by
  constructor
  · rintro ⟨invalid, before, after, rfl, -, hinvalid, -⟩
    exact ⟨invalid.character, by simp, hinvalid⟩
  · intro h
    induction text generalizing position with
    | nil => simp at h
    | cons first text ih =>
        by_cases hfirst : InShape first
        · obtain ⟨c, hmem, hc⟩ := h
          obtain rfl | hmem := List.mem_cons.mp hmem
          · exact absurd hfirst hc
          · obtain ⟨invalid, hinvalid⟩ : ∃ invalid, FirstInvalid (position.step first) text invalid :=
              ih ⟨c, hmem, hc⟩
            exact ⟨invalid, firstInvalid_cons_iff.mpr (.inr ⟨hfirst, hinvalid⟩)⟩
        · exact ⟨_, firstInvalid_cons_iff.mpr (.inl ⟨hfirst, rfl⟩)⟩

-- A text that cannot be read has a first character that no shape is written with.
theorem exists_read_iff : (∃ shape, read source = .ok shape) ↔ ∀ c ∈ trim source.toList, InShape c := by
  have herror : (∃ invalid, read source = .error invalid) ↔ ∃ c ∈ trim source.toList, ¬ InShape c := by
    simp only [read_eq_error_iff, exists_firstInvalid_iff]
  have hok : (∃ shape, read source = .ok shape) ↔ ¬ ∃ invalid, read source = .error invalid := by
    cases read source <;> simp
  rw [hok, herror]
  push Not
  rfl

theorem read_text_of_read (h : read source = .ok shape) : read shape.text = .ok shape := by
  have hrows : shape.rows.map (List.map Pixel.char) ≠ [] := read_eq_ok_iff.mp h ▸ List.splitOn_ne_nil _ _
  refine read_text_of_trimmed (by simpa using hrows) ?_
  rw [toList_text_of_read h]
  exact trimmed_trim _

-- Reading and drawing are inverse to each other, but for the white space at the ends of a text; what
-- cannot be read is reported at its first character that is no pixel.
theorem read_exact :
    (∀ text : String,
      (∃ front back, text.toList = front ++ trim text.toList ++ back ∧ (∀ c ∈ front, isBlank c) ∧
        ∀ c ∈ back, isBlank c) ∧
      Trimmed (trim text.toList) ∧
      ((∃ shape, read text = .ok shape) ↔
        ∀ c ∈ trim text.toList, c = '.' ∨ c = '+' ∨ c = '#' ∨ c = '\n') ∧
      (∀ shape, read text = .ok shape →
        shape.text = String.ofList (trim text.toList) ∧ read shape.text = .ok shape) ∧
      ∀ invalid, read text = .error invalid ↔
        ∃ before after, trim text.toList = before ++ invalid.character :: after ∧
          (∀ c ∈ before, InShape c) ∧ ¬ InShape invalid.character ∧
          Position.after before = ⟨invalid.row, invalid.column⟩) ∧
    ∀ (shape : Shape) (first last : List Pixel), shape.rows.head? = some first →
      shape.rows.getLast? = some last → first ≠ [] → last ≠ [] → read shape.text = .ok shape := by
  refine ⟨fun text => ⟨exists_trim _, trimmed_trim _, exists_read_iff, fun shape hread => ⟨?_, ?_⟩,
    fun invalid => ?_⟩, fun shape first last hfirst hlast hfirst' hlast' => ?_⟩
  · rw [← toList_text_of_read hread, String.ofList_toList]
  · exact read_text_of_read hread
  · simp only [read_eq_error_iff, FirstInvalid, Position.advance_start]
  · refine read_text_of_trimmed ?_ (trimmed_text hfirst hlast hfirst' hlast')
    intro hrows
    simp [hrows] at hfirst

def ragged : Shape := ⟨[[.black], [], [.white, .transparent]]⟩

theorem read_exact_ragged : ragged.rows.head? = some [.black] ∧
    ragged.rows.getLast? = some [.white, .transparent] ∧ read ragged.text = .ok ragged ∧
    read "\n.\n\n+x# \n" = .error ⟨'x', 3, 2⟩ := by
  refine ⟨rfl, rfl, read_exact.2 ragged _ _ rfl rfl (by decide) (by decide), ?_⟩
  refine ((read_exact.1 _).2.2.2.2 _).mpr ⟨['.', '\n', '\n', '+'], ['#'], by decide +kernel, ?_, ?_, rfl⟩
  · simp [InShape]
  · simp [InShape]

end Handheld.Shape
