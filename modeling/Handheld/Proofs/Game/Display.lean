import Handheld.Game.Display
import Handheld.Game.Settings
import Mathlib.Data.List.Basic

namespace Handheld

-- Whether a row has an opaque pixel at a column, however far to either side that is.
def Pixel.OpaqueAt (pixels : List Pixel) (column : Int) : Prop :=
  ∃ (dx : Nat) (pixel : Pixel), column = dx ∧ pixels[dx]? = some pixel ∧ pixel.isOpaque

def Shape.IsOpaqueAt (shape : Shape) (row column : Int) : Prop :=
  ∃ (dy : Nat) (pixels : List Pixel), row = dy ∧ shape.rows[dy]? = some pixels ∧
    Pixel.OpaqueAt pixels column

-- A number of things that a vector can have: one that is a value.
def Countable (count : Nat) : Prop := (count : Int) ≤ Int64.maxValue.toInt

instance (count : Nat) : Decidable (Countable count) := inferInstanceAs (Decidable (_ ≤ _))

structure Shape.IsCountable (shape : Shape) : Prop where
  rows : Countable shape.rows.length
  pixels : ∀ pixels ∈ shape.rows, Countable pixels.length

theorem countable_of_le {count more : Nat} (h : Countable more) (hle : count ≤ more) : Countable count :=
  Int.le_trans (Int.ofNat_le.mpr hle) h

namespace Display

variable {display : Display} {shape : Shape} {x y : Value} {row column r c : Nat}

def size (display : Display) : Nat × Nat := (display.width, display.height)

@[simp] theorem size_clear (display : Display) : display.clear.size = display.size := rfl

@[simp] theorem size_set (display : Display) (row column : Nat) (on : Bool) :
    (display.set row column on).size = display.size := by
  unfold set
  split <;> rfl

@[simp] theorem size_overlay (display : Display) (shape : Shape) (x y : Value) :
    (display.overlay shape x y).size = display.size := rfl

-- A cleared display has nothing left but its size.
theorem clear_eq_blank {width height : Nat} (h : display.size = (width, height)) :
    display.clear = blank width height := by
  obtain ⟨rfl, rfl⟩ := Prod.mk.inj h
  rfl

theorem isOn_clear (display : Display) (row column : Nat) : display.clear.isOn row column = false := by
  have hcell : (display.clear.cells[cellAt display.clear.width row column]?).getD false = false := by
    change ((Vector.replicate _ false)[_]?).getD false = false
    rw [Vector.getElem?_replicate]
    split <;> rfl
  rw [isOn, hcell, Bool.and_false]

-- A display whose cells could be counted and are there.
def Fits (display : Display) : Prop := Countable (display.width * display.height)

-- Settings that are valid ask for no other.
theorem fits_of_size {settings : Settings} (h : settings.fault? = none)
    (hsize : display.size = (settings.width, settings.height)) : display.Fits := by
  have hsides : settings.width ≤ Settings.maxSide ∧ settings.height ≤ Settings.maxSide := by
    simp only [Settings.fault?] at h
    split_ifs at h
    omega
  have hmost : Countable (Settings.maxSide * Settings.maxSide) := by decide
  obtain ⟨hwidth, hheight⟩ := Prod.mk.inj hsize
  rw [Fits, hwidth, hheight]
  exact countable_of_le hmost (Nat.mul_le_mul hsides.1 hsides.2)

theorem word_eq_of_countable {n : Nat} (h : Countable n) : word n = n := by
  have hmax : Int64.maxValue.toInt < UInt64.size := by decide
  rw [Countable] at h
  exact Nat.mod_eq_of_lt (by omega)

theorem cellCount_eq (hfits : display.Fits) :
    cellCount display.width display.height = display.width * display.height :=
  word_eq_of_countable hfits

theorem mul_add_lt {width height : Nat} (hrow : row < height) (hcolumn : column < width) :
    row * width + column < width * height := by
  have hrows : (row + 1) * width ≤ height * width := Nat.mul_le_mul_right _ hrow
  rw [Nat.add_mul, Nat.one_mul] at hrows
  rw [Nat.mul_comm width]
  omega

theorem cellAt_eq (hfits : display.Fits) (hrow : row < display.height) (hcolumn : column < display.width) :
    cellAt display.width row column = row * display.width + column :=
  word_eq_of_countable (countable_of_le hfits (Nat.le_of_lt (mul_add_lt hrow hcolumn)))

theorem cellAt_lt (hfits : display.Fits) (hrow : row < display.height) (hcolumn : column < display.width) :
    cellAt display.width row column < cellCount display.width display.height := by
  rw [cellAt_eq hfits hrow hcolumn, cellCount_eq hfits]
  exact mul_add_lt hrow hcolumn

-- No two pixels have one cell.
theorem cellAt_inj (hfits : display.Fits) (hr : r < display.height) (hc : c < display.width)
    (hrow : row < display.height) (hcolumn : column < display.width) :
    cellAt display.width r c = cellAt display.width row column ↔ r = row ∧ c = column := by
  rw [cellAt_eq hfits hr hc, cellAt_eq hfits hrow hcolumn]
  refine ⟨fun h => ?_, fun ⟨hrow, hcol⟩ => by rw [hrow, hcol]⟩
  obtain rfl : c = column := by
    simpa [Nat.mul_add_mod_of_lt hc, Nat.mul_add_mod_of_lt hcolumn] using congrArg (· % display.width) h
  exact ⟨Nat.eq_of_mul_eq_mul_right (Nat.zero_lt_of_lt hc) (Nat.add_right_cancel h), rfl⟩

section Cells

variable {count : Nat} (cells : Vector Bool count) (indices others : List Nat)

theorem getElem_turnOn {i : Nat} (hi : i < count) :
    (turnOn cells indices)[i] = (cells[i] || decide (i ∈ indices)) := by
  induction indices generalizing cells with
  | nil => simp [turnOn]
  | cons index indices ih =>
      have hfirst : turnOn cells (index :: indices) = turnOn (cells.setIfInBounds index true) indices := rfl
      rw [hfirst, ih, Vector.getElem_setIfInBounds]
      by_cases hindex : index = i
      · simp [hindex]
      · simp [hindex, Ne.symm hindex]

theorem turnOn_self : turnOn (turnOn cells indices) indices = turnOn cells indices := by
  ext i hi
  simp [getElem_turnOn]

theorem turnOn_comm : turnOn (turnOn cells indices) others = turnOn (turnOn cells others) indices := by
  ext i hi
  simp [getElem_turnOn, Bool.or_right_comm]

end Cells

theorem overlay_overlay_self (display : Display) (shape : Shape) (x y : Value) :
    (display.overlay shape x y).overlay shape x y = display.overlay shape x y := by
  simp only [overlay, turnOn_self]

theorem overlay_comm (display : Display) (shape shape' : Shape) (x y x' y' : Value) :
    (display.overlay shape x y).overlay shape' x' y' = (display.overlay shape' x' y').overlay shape x y := by
  simp only [overlay, turnOn_comm]

theorem eq_of_offset? {origin : Value} {delta limit position : Nat}
    (h : offset? origin delta limit = some position) :
    (position : Int) = origin.toInt + delta ∧ position < limit := by
  obtain ⟨delta', hdelta, h⟩ := Option.bind_eq_some_iff.mp h
  obtain ⟨sum, hsum, h⟩ := Option.bind_eq_some_iff.mp h
  rw [Value.ofInt?_eq_some_iff] at hdelta hsum
  simp only [Option.ite_none_right_eq_some, Option.some.injEq] at h
  omega

theorem exists_ofInt? {n : Int} (hlow : Int64.minValue.toInt ≤ n) (hhigh : n ≤ Int64.maxValue.toInt) :
    ∃ value, Value.ofInt? n = some value ∧ value.toInt = n := by
  obtain ⟨value, hvalue⟩ : ∃ value, Value.ofInt? n = some value := ⟨_, if_pos ⟨hlow, hhigh⟩⟩
  exact ⟨value, hvalue, Value.ofInt?_eq_some_iff.mp hvalue⟩

-- An offset that overflows is outside of every display.
theorem offset?_eq_some_iff {origin : Value} {delta limit position : Nat} (hdelta : Countable delta)
    (hlimit : Countable limit) : offset? origin delta limit = some position ↔
      (position : Int) = origin.toInt + delta ∧ position < limit := by
  refine ⟨eq_of_offset?, fun ⟨heq, hlt⟩ => ?_⟩
  have hleast : Int64.minValue.toInt ≤ 0 := by decide
  rw [Countable] at hdelta hlimit
  obtain ⟨delta', hdelta', hvalue⟩ := exists_ofInt? (by omega) hdelta
  obtain ⟨sum, hsum, hsumvalue⟩ : ∃ sum, Value.ofInt? (origin.toInt + delta'.toInt) = some sum ∧ _ :=
    exists_ofInt? (by omega) (by omega)
  refine Option.bind_eq_some_iff.mpr ⟨delta', hdelta', Option.bind_eq_some_iff.mpr ⟨sum, hsum, ?_⟩⟩
  simp only [Option.ite_none_right_eq_some, Option.some.injEq]
  omega

-- The cells of a shape are those of the places that its opaque pixels come to.
theorem mem_shapeCells_iff {width height index : Nat} {rows : List (List Pixel)} :
    index ∈ shapeCells width height x y rows.zipIdx ↔
      ∃ dy pixels row dx pixel column, rows[dy]? = some pixels ∧ offset? y dy height = some row ∧
        pixels[dx]? = some pixel ∧ pixel.isOpaque ∧ offset? x dx width = some column ∧
          cellAt width row column = index := by
  simp only [shapeCells, rowCells, List.mem_flatMap, List.mem_zipIdx_iff_getElem?, Prod.exists,
    Option.mem_toList, List.mem_ite_nil_right, List.mem_map]
  constructor
  · rintro ⟨pixels, dy, hpixels, row, hrow, pixel, dx, hpixel, hopaque, column, hcolumn, hcell⟩
    exact ⟨dy, pixels, row, dx, pixel, column, hpixels, hrow, hpixel, hopaque, hcolumn, hcell⟩
  · rintro ⟨dy, pixels, row, dx, pixel, column, hpixels, hrow, hpixel, hopaque, hcolumn, hcell⟩
    exact ⟨pixels, dy, hpixels, row, hrow, pixel, dx, hpixel, hopaque, column, hcolumn, hcell⟩

theorem lt_of_mem_shapeCells (hfits : display.Fits) {rows : List (List Pixel)} {index : Nat}
    (h : index ∈ shapeCells display.width display.height x y rows.zipIdx) :
    index < cellCount display.width display.height := by
  obtain ⟨_, _, row, _, _, column, _, hrow, _, _, hcolumn, rfl⟩ := mem_shapeCells_iff.mp h
  exact cellAt_lt hfits (eq_of_offset? hrow).2 (eq_of_offset? hcolumn).2

theorem hasCell_of_fits (hfits : display.Fits) (hrow : row < display.height) (hcolumn : column < display.width) :
    display.hasCell row column :=
  decide_eq_true (cellAt_lt hfits hrow hcolumn)

theorem canOverlay_of_fits (hfits : display.Fits) : display.canOverlay shape x y :=
  List.all_eq_true.mpr fun _ hindex => decide_eq_true (lt_of_mem_shapeCells hfits hindex)

theorem countable_width (hfits : display.Fits) (hheight : 0 < display.height) : Countable display.width :=
  countable_of_le hfits (Nat.le_mul_of_pos_right _ hheight)

theorem countable_height (hfits : display.Fits) (hwidth : 0 < display.width) : Countable display.height :=
  countable_of_le hfits (Nat.le_mul_of_pos_left _ hwidth)

-- Where the cells are there, a shape turns on the one of a pixel just when it is opaque at its place.
theorem cellAt_mem_shapeCells_iff (hfits : display.Fits) (hshape : shape.IsCountable)
    (hr : r < display.height) (hc : c < display.width) :
    cellAt display.width r c ∈ shapeCells display.width display.height x y shape.rows.zipIdx ↔
      shape.IsOpaqueAt (r - y.toInt) (c - x.toInt) := by
  have hwidth := countable_width hfits (Nat.zero_lt_of_lt hr)
  have hheight := countable_height hfits (Nat.zero_lt_of_lt hc)
  rw [mem_shapeCells_iff]
  constructor
  · rintro ⟨dy, pixels, row, dx, pixel, column, hpixels, hrow, hpixel, hopaque, hcolumn, hcell⟩
    obtain ⟨hy, hrow⟩ := eq_of_offset? hrow
    obtain ⟨hx, hcolumn⟩ := eq_of_offset? hcolumn
    obtain ⟨rfl, rfl⟩ := (cellAt_inj hfits hrow hcolumn hr hc).mp hcell
    exact ⟨dy, pixels, by omega, hpixels, dx, pixel, by omega, hpixel, hopaque⟩
  · rintro ⟨dy, pixels, hy, hpixels, dx, pixel, hx, hpixel, hopaque⟩
    have hdy : Countable dy :=
      countable_of_le hshape.rows (Nat.le_of_lt (List.getElem?_eq_some_iff.mp hpixels).1)
    have hdx : Countable dx := countable_of_le (hshape.pixels pixels (List.mem_of_getElem? hpixels))
      (Nat.le_of_lt (List.getElem?_eq_some_iff.mp hpixel).1)
    have hrow : offset? y dy display.height = some r :=
      (offset?_eq_some_iff hdy hheight).mpr ⟨by omega, hr⟩
    have hcolumn : offset? x dx display.width = some c :=
      (offset?_eq_some_iff hdx hwidth).mpr ⟨by omega, hc⟩
    exact ⟨dy, pixels, r, dx, pixel, c, hpixels, hrow, hpixel, hopaque, hcolumn, rfl⟩

theorem isOn_eq_getElem (display : Display) (hfits : display.Fits) (hr : r < display.height)
    (hc : c < display.width) : ∃ hcell : cellAt display.width r c < cellCount display.width display.height,
      display.isOn r c = display.cells[cellAt display.width r c] := by
  refine ⟨cellAt_lt hfits hr hc, ?_⟩
  have hcell : display.cells[cellAt display.width r c]? = some _ :=
    Vector.getElem?_eq_getElem (cellAt_lt hfits hr hc)
  simp [isOn, hr, hc, hcell]

theorem isOn_set (hfits : display.Fits) (on : Bool) (hr : r < display.height) (hc : c < display.width) :
    (display.set row column on).isOn r c = if r = row ∧ c = column then on else display.isOn r c := by
  unfold set
  split
  · rename_i hinside
    have hinj := cellAt_inj hfits hinside.1 hinside.2 hr hc
    let after : Display :=
      ⟨display.width, display.height, display.cells.setIfInBounds (cellAt display.width row column) on⟩
    have hafter : after.Fits := hfits
    obtain ⟨_, hbefore⟩ := isOn_eq_getElem display hfits hr hc
    obtain ⟨_, hcell⟩ := isOn_eq_getElem after hafter hr hc
    rw [hbefore]
    refine hcell.trans ?_
    simp only [after, Vector.getElem_setIfInBounds, hinj, eq_comm]
  · rename_i houtside
    rw [if_neg]
    rintro ⟨rfl, rfl⟩
    exact houtside ⟨hr, hc⟩

-- A pixel is on when it was on or the shape is opaque there.
theorem isOn_overlay (hfits : display.Fits) (hshape : shape.IsCountable) (hr : r < display.height)
    (hc : c < display.width) : (display.overlay shape x y).isOn r c ↔
      display.isOn r c ∨ shape.IsOpaqueAt (r - y.toInt) (c - x.toInt) := by
  obtain ⟨hcell, hbefore⟩ := isOn_eq_getElem display hfits hr hc
  obtain ⟨_, hafter⟩ := isOn_eq_getElem (display.overlay shape x y) hfits hr hc
  have hturned : (display.overlay shape x y).isOn r c = _ := hafter.trans (getElem_turnOn _ _ hcell)
  rw [hturned, hbefore, Bool.or_eq_true, decide_eq_true_eq, cellAt_mem_shapeCells_iff hfits hshape hr hc]

theorem overlay_transparent (display : Display) {shape : Shape} (x y : Value)
    (h : ∀ pixels ∈ shape.rows, ∀ pixel ∈ pixels, pixel = .transparent) :
    display.overlay shape x y = display := by
  have hnone : shapeCells display.width display.height x y shape.rows.zipIdx = [] := by
    refine List.eq_nil_iff_forall_not_mem.mpr fun index hindex => ?_
    obtain ⟨_, pixels, _, _, pixel, _, hpixels, _, hpixel, hopaque, _⟩ := mem_shapeCells_iff.mp hindex
    rw [h pixels (List.mem_of_getElem? hpixels) pixel (List.mem_of_getElem? hpixel)] at hopaque
    simp [Pixel.isOpaque] at hopaque
  rw [overlay, hnone]
  rfl

-- The pieces of the row of cells are the rows of pixels.
theorem rows_eq (hfits : display.Fits) (hwidth : 1 ≤ display.width) :
    display.rows = (List.range display.height).map fun row =>
      (List.range display.width).map fun column => display.isOn row column := by
  have hmax : max display.width 1 = display.width := Nat.max_eq_left hwidth
  have hpieces : (cellCount display.width display.height + (display.width - 1)) / display.width =
      display.height := by
    have hrest : (display.width - 1) / display.width = 0 := Nat.div_eq_of_lt (by omega)
    rw [cellCount_eq hfits, Nat.mul_add_div hwidth, hrest, Nat.add_zero]
  simp only [rows, hmax, hpieces, Nat.min_self]
  refine List.map_congr_left fun row hrow => ?_
  rw [List.mem_range] at hrow
  have hend : row * display.width + display.width ≤ cellCount display.width display.height := by
    rw [cellCount_eq hfits, ← Nat.succ_mul, Nat.mul_comm display.width]
    exact Nat.mul_le_mul_right _ hrow
  apply List.ext_getElem
  · simp only [Array.length_toList, Array.size_extract, Vector.size_toArray, List.length_map, List.length_range,
      Nat.add_mul, Nat.one_mul]
    omega
  · intro column hleft hright
    have hcolumn : column < display.width := by simpa using hright
    obtain ⟨_, hcell⟩ := isOn_eq_getElem display hfits hrow hcolumn
    simp [hcell, cellAt_eq hfits hrow hcolumn]

-- The text of a display shows its rows one below the other.
theorem splitOn_text (hfits : display.Fits) (hwidth : 1 ≤ display.width) (hheight : 1 ≤ display.height) :
    display.text.toList.splitOn '\n' = (List.range display.height).map fun row =>
      (List.range display.width).map fun column => if display.isOn row column then '#' else '.' := by
  have htext : display.text.toList = ['\n'].intercalate ((List.range display.height).map fun row =>
      (List.range display.width).map fun column => if display.isOn row column then '#' else '.') := by
    simp [text, rows_eq hfits hwidth, String.toList_intercalate, Function.comp_def]
  rw [htext, List.splitOn_intercalate]
  · intro line hline hbreak
    obtain ⟨row, _, rfl⟩ := List.mem_map.mp hline
    obtain ⟨column, _, hcolumn⟩ := List.mem_map.mp hbreak
    split at hcolumn <;> simp at hcolumn
  · simpa using Nat.ne_of_gt hheight

-- The lines that show a display: one for each row, with a sign for each pixel.
structure ShownBy (display : Display) (lines : List (List Char)) : Prop where
  height : lines.length = display.height
  width : ∀ signs ∈ lines, signs.length = display.width
  pixels : ∀ r < display.height, ∀ c < display.width, ∃ signs, lines[r]? = some signs ∧
    signs[c]? = some (if display.isOn r c then '#' else '.')

theorem shownBy_text (hfits : display.Fits) (hwidth : 1 ≤ display.width) (hheight : 1 ≤ display.height) :
    display.ShownBy (display.text.toList.splitOn '\n') := by
  rw [splitOn_text hfits hwidth hheight]
  refine ⟨by simp, fun line hline => ?_, fun r hr c hc => ?_⟩
  · obtain ⟨row, _, rfl⟩ := List.mem_map.mp hline
    simp
  · exact ⟨_, by rw [List.getElem?_map, List.getElem?_range hr, Option.map_some], by simp [hc]⟩

-- On a display whose cells are there, all pixels have a cell, and a shape turns on the pixels that it is
-- opaque at, wherever it stands, and nothing else.
theorem overlay_exact (display : Display) (shape : Shape) (x y : Value) (hwidth : 1 ≤ display.width)
    (hheight : 1 ≤ display.height) (hfits : display.Fits) :
    (display.overlay shape x y).size = display.size ∧
    (∀ r < display.height, ∀ c < display.width,
      cellAt display.width r c < cellCount display.width display.height) ∧
    (∀ index ∈ shapeCells display.width display.height x y shape.rows.zipIdx,
      index < cellCount display.width display.height) ∧
    (shape.IsCountable → ∀ r < display.height, ∀ c < display.width,
      ((display.overlay shape x y).isOn r c ↔
        display.isOn r c ∨ shape.IsOpaqueAt (r - y.toInt) (c - x.toInt))) ∧
    ((∀ pixels ∈ shape.rows, ∀ pixel ∈ pixels, pixel = .transparent) →
      display.overlay shape x y = display) ∧
    (display.overlay shape x y).overlay shape x y = display.overlay shape x y ∧
    (∀ shape' x' y', (display.overlay shape x y).overlay shape' x' y' =
      (display.overlay shape' x' y').overlay shape x y) ∧
    display.ShownBy (display.text.toList.splitOn '\n') := by
  refine ⟨size_overlay display shape x y, fun r hr c hc => cellAt_lt hfits hr hc,
    fun index => lt_of_mem_shapeCells hfits, fun hshape r hr c hc => isOn_overlay hfits hshape hr hc,
    overlay_transparent display x y, overlay_overlay_self display shape x y,
    fun shape' => overlay_comm display shape shape' x y, shownBy_text hfits hwidth hheight⟩

-- .+#
-- #
def corner : Shape := ⟨[[.transparent, .white, .black], [.black]]⟩

-- All of it but one pixel is left of the screen.
theorem overlay_exact_corner : 1 ≤ (blank 3 2).width ∧ 1 ≤ (blank 3 2).height ∧ (blank 3 2).Fits ∧
    corner.IsCountable ∧ ((blank 3 2).overlay corner (-2) 0).size = (3, 2) ∧
    ((blank 3 2).overlay corner (-2) 0).isOn 0 0 ∧ ¬ ((blank 3 2).overlay corner (-2) 0).isOn 1 0 := by
  have hfits : (blank 3 2).Fits := by
    rw [Fits]
    decide
  have hcorner : corner.IsCountable := ⟨by decide, by decide⟩
  obtain ⟨hsize, _, _, hpixels, _⟩ := overlay_exact (blank 3 2) corner (-2) 0 (by decide) (by decide) hfits
  have hon := hpixels hcorner
  have hopaque : corner.IsOpaqueAt ((0 : Nat) - (0 : Value).toInt) ((0 : Nat) - (-2 : Value).toInt) :=
    ⟨0, _, rfl, rfl, 2, .black, rfl, rfl, rfl⟩
  have hempty : ¬ corner.IsOpaqueAt ((1 : Nat) - (0 : Value).toInt) ((0 : Nat) - (-2 : Value).toInt) := by
    rintro ⟨dy, pixels, hdy, hpixels, dx, pixel, hdx, hpixel, _⟩
    have hy : ((1 : Nat) : Int) - (0 : Value).toInt = 1 := rfl
    have hx : ((0 : Nat) : Int) - (-2 : Value).toInt = 2 := rfl
    obtain rfl : dy = 1 := by omega
    obtain rfl : dx = 2 := by omega
    obtain rfl := Option.some.inj hpixels
    simp at hpixel
  refine ⟨by decide, by decide, hfits, hcorner, hsize, (hon 0 (by decide) 0 (by decide)).mpr (.inr hopaque), ?_⟩
  rw [hon 1 (by decide) 0 (by decide)]
  rintro (hbefore | hshape)
  · exact absurd hbefore (by decide)
  · exact hempty hshape

example : ((blank 3 2).overlay corner (-2) 0).text = "#..\n..." := by decide +kernel

-- One pixel.
def dot : Shape := ⟨[[.black]]⟩

-- A display with so many cells that their number wraps, to none.
def wrapped : Display := blank UInt32.size UInt32.size

-- A pixel has no cell there, and a shape turns on nothing.
theorem overlay_wrapped : 1 ≤ wrapped.width ∧ 1 ≤ wrapped.height ∧ dot.IsCountable ∧
    (∃ index ∈ shapeCells wrapped.width wrapped.height 0 0 dot.rows.zipIdx,
      ¬ index < cellCount wrapped.width wrapped.height) ∧
    dot.IsOpaqueAt ((0 : Nat) - (0 : Value).toInt) ((0 : Nat) - (0 : Value).toInt) ∧
    ¬ (wrapped.overlay dot 0 0).isOn 0 0 ∧ ¬ wrapped.canOverlay dot 0 0 ∧ wrapped.text = "" := by
  have hdot : dot.IsCountable := ⟨by decide, by decide⟩
  have hopaque : dot.IsOpaqueAt ((0 : Nat) - (0 : Value).toInt) ((0 : Nat) - (0 : Value).toInt) :=
    ⟨0, _, rfl, rfl, 0, .black, rfl, rfl, rfl⟩
  have hcell : 0 ∈ shapeCells wrapped.width wrapped.height 0 0 dot.rows.zipIdx := by decide +kernel
  exact ⟨by decide, by decide, hdot, ⟨0, hcell, by decide⟩, hopaque, by decide +kernel, by decide +kernel,
    by decide +kernel⟩

end Display

end Handheld
