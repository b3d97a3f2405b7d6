import Handheld.Proofs.Data.Except
import Handheld.Proofs.Lexer
import Handheld.Proofs.Lexer.Pulls
import Handheld.Proofs.Pattern.Words

namespace Handheld

open Text

-- A token wherever it stands.
def Token.unplaced {κ : Type} (token : Token κ) : Token κ := ⟨token.kind, token.lexeme, .start⟩

@[simp] theorem Token.kind_unplaced {κ : Type} (token : Token κ) : token.unplaced.kind = token.kind := rfl

namespace Lexer

variable {κ : Type} {lexer : Lexer κ} {rules : List (κ × Pattern)} {ignored : List Pattern} {c : Char}
  {text middle rest : List Char} {kind : κ} {count : Nat} {tokens more placed : List (Token κ)}

-- What is left of a text once its ignored start is taken away.
def settled (lexer : Lexer κ) (text : List Char) : List Char :=
  text.drop (ignoredLength lexer.ignored text)

-- Tokens cut from the start of a text one after the other, wherever the text stands, and what is left of it.
inductive Cuts (lexer : Lexer κ) : (text : List Char) → List (Token κ) → (rest : List Char) → Prop
  | nil (text : List Char) : Cuts lexer text [] text
  | cons {text rest : List Char} {kind : κ} {count : Nat} {tokens : List (Token κ)} :
      firstMatch? lexer.rules (lexer.settled text) = some (kind, count) →
      Cuts lexer ((lexer.settled text).drop count) tokens rest →
      Cuts lexer text (⟨kind, .ofList ((lexer.settled text).take count), .start⟩ :: tokens) rest

theorem Cuts.append (h : lexer.Cuts text tokens middle) (hmore : lexer.Cuts middle more rest) :
    lexer.Cuts text (tokens ++ more) rest := by
  induction h with
  | nil => exact hmore
  | cons hfirst _ ih => exact .cons hfirst (ih hmore)

theorem length_le_of_firstMatch? (h : firstMatch? rules text = some (kind, count)) :
    count ≤ text.length := by
  obtain ⟨rule, _, hrule⟩ := List.exists_of_findSome?_eq_some h
  dsimp only at hrule
  split at hrule
  · rename_i length hmatch
    obtain ⟨rfl, rfl⟩ := by simpa using hrule
    exact (Pattern.spells_of_matchLength? hmatch).1
  · simp at hrule

theorem ne_nil_of_firstMatch? (h : firstMatch? rules text = some (kind, count)) : text ≠ [] := by
  rintro rfl
  exact absurd (length_le_of_firstMatch? h) (Nat.not_le_of_lt (firstMatch?_pos h))

theorem Cuts.readBy (h : lexer.Cuts text tokens rest) : ∀ token ∈ tokens, lexer.ReadBy token := by
  induction h with
  | nil => simp
  | cons hfirst _ ih =>
      refine List.forall_mem_cons.mpr ⟨?_, ih⟩
      exact (firstMatch_of_eq_some (ne_nil_of_firstMatch? hfirst) hfirst).readBy .start

-- What is cut is what a run pulls, if only ignored text is left at the end.
theorem exists_pullAll_of_cuts (hmarker : lexer.endMarker = none) (h : lexer.Cuts text tokens rest)
    (hrest : lexer.settled rest = []) (position : Position) :
    ∃ placed : List (Token κ), lexer.pullAll ⟨text, position, false⟩ = placed.map .ok ∧
      placed.map Token.unplaced = tokens := by
  induction h generalizing position with
  | nil text =>
      refine ⟨[], ?_, rfl⟩
      rw [pullAll_of_end rfl rfl position hrest, hmarker]
      rfl
  | @cons text rest kind count tokens hfirst _ ih =>
      obtain ⟨placed, hpulled, hplaced⟩ := ih hrest
        ((position.advance (text.take (ignoredLength lexer.ignored text))).advance
          ((lexer.settled text).take count))
      refine ⟨⟨kind, .ofList ((lexer.settled text).take count),
        position.advance (text.take (ignoredLength lexer.ignored text))⟩ :: placed, ?_, ?_⟩
      · rw [List.map_cons, ← hpulled]
        exact pullAll_of_match rfl rfl position (ne_nil_of_firstMatch? hfirst) hfirst
      · rw [List.map_cons, hplaced]
        rfl

theorem cuts_of_pullAll (hmarker : lexer.endMarker = none) {position : Position}
    (h : lexer.pullAll ⟨text, position, false⟩ = placed.map .ok) :
    ∃ rest, lexer.Cuts text (placed.map Token.unplaced) rest ∧ lexer.settled rest = [] := by
  induction placed generalizing text position with
  | nil =>
      refine ⟨text, .nil text, ?_⟩
      by_contra hne
      obtain ⟨_, _, _, _, hnil, _⟩ := exists_of_pullAll rfl rfl position hne h
      simp at hnil
  | cons token placed ih =>
      by_cases hempty : lexer.settled text = []
      · rw [pullAll_of_end rfl rfl position hempty, hmarker] at h
        simp at h
      · obtain ⟨kind, count, more, hfirst, hplaced, hpulls⟩ := exists_of_pullAll rfl rfl position hempty h
        obtain ⟨rfl, rfl⟩ := List.cons.inj hplaced
        obtain ⟨rest, hcuts, hrest⟩ := ih hpulls
        exact ⟨rest, .cons hfirst hcuts, hrest⟩

theorem tokens_eq_ok_iff {source : String} :
    lexer.tokens source = .ok placed ↔ lexer.run source = placed.map .ok := by
  constructor
  · intro h
    have hforall := forall₂_of_mapM_eq_ok h
    refine List.forall₂_eq_eq_eq ▸ ?_
    simpa [List.forall₂_map_right_iff] using hforall
  · intro h
    rw [tokens, h, mapM_id_map_ok]

-- A lexer without an end marker gives the tokens that can be cut from the text before nothing but ignored
-- text is left.
theorem exists_tokens_of_cuts (hmarker : lexer.endMarker = none) (h : lexer.Cuts text tokens rest)
    (hrest : lexer.settled rest = []) : ∃ placed, lexer.tokens (.ofList text) = .ok placed ∧
      placed.map Token.unplaced = tokens := by
  obtain ⟨placed, hpulled, hplaced⟩ := exists_pullAll_of_cuts hmarker h hrest .start
  refine ⟨placed, tokens_eq_ok_iff.mpr ?_, hplaced⟩
  rw [run, State.start, String.toList_ofList, hpulled]

theorem cuts_of_tokens (hmarker : lexer.endMarker = none) (h : lexer.tokens (.ofList text) = .ok placed) :
    ∃ rest, lexer.Cuts text (placed.map Token.unplaced) rest ∧ lexer.settled rest = [] := by
  have hrun := tokens_eq_ok_iff.mp h
  rw [run, State.start, String.toList_ofList] at hrun
  exact cuts_of_pullAll hmarker hrun

-- A character that ends every token before it, and that is not ignored itself.
structure EndsBefore (lexer : Lexer κ) (c : Char) : Prop where
  rules : ∀ rule ∈ lexer.rules, rule.2.EndsBefore c
  ignored : ∀ before after, ignoredLength lexer.ignored (before ++ c :: after) =
    ignoredLength lexer.ignored before

theorem firstMatch?_append_cons (h : ∀ rule ∈ rules, rule.2.EndsBefore c) (hne : text ≠ [])
    (after : List Char) : firstMatch? rules (text ++ c :: after) = firstMatch? rules text := by
  induction rules with
  | nil => rfl
  | cons rule rules ih =>
      obtain ⟨hrule, hrules⟩ := List.forall_mem_cons.mp h
      rw [firstMatch?_cons, firstMatch?_cons, hrule text after hne, ih hrules]

-- The tokens before such a character are the same whatever comes after it.
theorem Cuts.append_cons (hends : lexer.EndsBefore c) (h : lexer.Cuts text tokens rest)
    (after : List Char) : lexer.Cuts (text ++ c :: after) tokens (rest ++ c :: after) := by
  induction h with
  | nil text => exact .nil _
  | @cons text rest kind count tokens hfirst _ ih =>
      have hne := ne_nil_of_firstMatch? hfirst
      have hsettled : lexer.settled (text ++ c :: after) = lexer.settled text ++ c :: after := by
        have hlt := List.length_lt_of_drop_ne_nil hne
        rw [settled, hends.ignored, List.drop_append_of_le_length hlt.le]
        rfl
      have hle := length_le_of_firstMatch? hfirst
      have htake : (lexer.settled (text ++ c :: after)).take count = (lexer.settled text).take count := by
        rw [hsettled, List.take_append_of_le_length hle]
      rw [← htake]
      refine .cons ?_ ?_
      · rw [hsettled, firstMatch?_append_cons hends.rules hne, hfirst]
      · rwa [hsettled, List.drop_append_of_le_length hle]

theorem takeWhile_drop_takeWhile (p : Char → Bool) (text : List Char) :
    (text.drop (text.takeWhile p).length).takeWhile p = [] := by
  induction text with
  | nil => rfl
  | cons c text ih => by_cases hc : p c <;> simp [hc, ih]

-- A lexer that ignores nothing but characters of some class.
theorem ignoredLength_many (cls : CharClass) (text : List Char) :
    ignoredLength [Pattern.many (.one cls)] text = (text.takeWhile cls.contains).length := by
  have hround (text : List Char) :
      ignoredInRound [Pattern.many (.one cls)] text = (text.takeWhile cls.contains).length := by
    have hmatch : Matcher.matchLength? (Pattern.many (.one cls)) text =
        (Pattern.many (.one cls)).matchLength? text := rfl
    simp only [ignoredInRound, hmatch, Pattern.matchLength?_many]
    split <;> simp [*]
  have hnone (text : List Char) (h : text.takeWhile cls.contains = []) :
      ignoredLength [Pattern.many (.one cls)] text = 0 := by
    cases text with
    | nil => rw [ignoredLength]
    | cons c text => rw [ignoredLength_of_ne_nil (by simp), hround, h, List.length_nil, if_pos rfl]
  by_cases hempty : text.takeWhile cls.contains = []
  · rw [hnone text hempty, hempty, List.length_nil]
  · have hne : text ≠ [] := by
      rintro rfl
      exact hempty rfl
    rw [ignoredLength_of_ne_nil hne, hround, if_neg (by simpa using hempty),
      hnone _ (takeWhile_drop_takeWhile _ text), Nat.add_zero]

end Lexer

end Handheld
