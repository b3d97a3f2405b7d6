import Handheld.Game.Shape
import Mathlib.Data.List.TakeWhile

namespace Handheld.Shape

theorem mem_of_mem_trim {text : List Char} {c : Char} (h : c ∈ trim text) : c ∈ text := by
  have hfront : c ∈ (text.dropWhile isBlank).reverse :=
    (List.dropWhile_sublist _).subset (List.mem_reverse.mp h)
  exact (List.dropWhile_sublist _).subset (List.mem_reverse.mp hfront)

theorem dropWhile_blanks {blanks : List Char} (h : ∀ c ∈ blanks, isBlank c) : blanks.dropWhile isBlank = [] :=
  List.dropWhile_eq_nil_iff.mpr h

theorem trim_append_blanks (text : List Char) {blanks : List Char} (h : ∀ c ∈ blanks, isBlank c) :
    trim (text ++ blanks) = trim text := by
  have hreverse : blanks.reverse.dropWhile isBlank = [] :=
    dropWhile_blanks fun c hc => h c (List.mem_reverse.mp hc)
  unfold trim
  rw [List.dropWhile_append]
  split
  · rename_i hempty
    rw [dropWhile_blanks h, List.isEmpty_iff.mp hempty]
  · rw [List.reverse_append, List.dropWhile_append, hreverse]
    rfl

-- Line breaks at the end of a shape are not read.
theorem read_double_break (above : List Char) {below : List Char} (h : ∀ c ∈ below, c = '\n') :
    read (.ofList (above ++ '\n' :: '\n' :: below)) = read (.ofList (above ++ '\n' :: below)) := by
  have hblank (c : Char) (hc : c = '\n') : isBlank c := by
    subst hc
    decide
  have hbelow : ∀ c ∈ '\n' :: below, isBlank c :=
    List.forall_mem_cons.mpr ⟨hblank _ rfl, fun c hc => hblank c (h c hc)⟩
  have hbelow' : ∀ c ∈ '\n' :: '\n' :: below, isBlank c := List.forall_mem_cons.mpr ⟨hblank _ rfl, hbelow⟩
  simp only [read, String.toList_ofList, trim_append_blanks above hbelow, trim_append_blanks above hbelow']

end Handheld.Shape
