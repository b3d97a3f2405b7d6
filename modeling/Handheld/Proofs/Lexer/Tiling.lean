import Handheld.Lexer
import Mathlib.Data.List.Induction
import Mathlib.Logic.Function.Iterate

namespace Handheld

open Text

-- The place of the next character once some text has been read, told without the way there.
def Text.Position.after (read : List Char) : Position :=
  ⟨1 + read.count '\n', 1 + (read.reverse.takeWhile (· ≠ '\n')).length⟩

theorem Text.Position.advance_start (read : List Char) :
    Position.start.advance read = .after read := by
  induction read using List.reverseRecOn with
  | nil => rfl
  | append_singleton read c ih =>
      rw [Position.advance_append, ih]
      by_cases hc : c = '\n'
      · simp [Position.advance, Position.step, Position.after, hc, Nat.add_assoc]
      · simp [Position.advance, Position.step, Position.after, hc]
        omega

theorem Text.Position.advance_after (read more : List Char) :
    (Position.after read).advance more = .after (read ++ more) := by
  rw [← Position.advance_start, ← Position.advance_append, Position.advance_start]

namespace Lexer

variable {κ π : Type} [Matcher π] {pattern : π} {ignored : List π} {rules : List (κ × π)} {kind : κ}
  {text taken gap rest : List Char} {lexer : Lexer κ π} {state next : State}

-- What a pattern matches at the start of a text.
def matched? (pattern : π) (text : List Char) : Option (List Char) :=
  (Matcher.matchLength? pattern text).map text.take

-- A pattern matches some text before the rest, and not just the empty text.
def Takes (pattern : π) (taken rest : List Char) : Prop :=
  taken ≠ [] ∧ matched? pattern (taken ++ rest) = some taken

def Idle (pattern : π) (text : List Char) : Prop := ∀ taken, matched? pattern text = some taken → taken = []

-- One ignored match after the other, in any order.
inductive Skips (ignored : List π) (rest : List Char) : List Char → Prop
  | nil : Skips ignored rest []
  | cons {pattern : π} {taken gap : List Char} : pattern ∈ ignored → Takes pattern taken (gap ++ rest) →
      Skips ignored rest gap → Skips ignored rest (taken ++ gap)

-- The text before a token: ignored matches, until there is none that is not empty.
structure Gap (ignored : List π) (gap rest : List Char) : Prop where
  skips : Skips ignored rest gap
  idle : ∀ pattern ∈ ignored, Idle pattern rest

-- The first rule with a match that is not empty reads the lexeme.
def FirstMatch (rules : List (κ × π)) (kind : κ) (lexeme rest : List Char) : Prop :=
  ∃ before pattern after, rules = before ++ (kind, pattern) :: after ∧ Takes pattern lexeme rest ∧
    ∀ rule ∈ before, Idle rule.2 (lexeme ++ rest)

-- What a lexer makes of a text, with the text that it has read before: gaps and lexemes in turn until the
-- text ends or cannot be read on.
inductive Tiling (lexer : Lexer κ π) :
    (read text : List Char) → List (Except LexicalError (Token κ)) → Prop
  | token {read gap lexeme rest : List Char} {kind : κ} {outs : List (Except LexicalError (Token κ))} :
      Gap lexer.ignored gap (lexeme ++ rest) → FirstMatch lexer.rules kind lexeme rest →
      Tiling lexer (read ++ gap ++ lexeme) rest outs →
      Tiling lexer read (gap ++ (lexeme ++ rest))
        (.ok ⟨kind, .ofList lexeme, .after (read ++ gap)⟩ :: outs)
  | finished {read gap : List Char} : Gap lexer.ignored gap [] →
      Tiling lexer read gap
        (lexer.endMarker.map fun kind => .ok ⟨kind, "", .after (read ++ gap)⟩).toList
  | stuck {read gap rest : List Char} : Gap lexer.ignored gap rest → rest ≠ [] →
      (∀ rule ∈ lexer.rules, Idle rule.2 rest) →
      Tiling lexer read (gap ++ rest) [.error ⟨.ofList (rest.take 3), .after (read ++ gap)⟩]

theorem Skips.append {more : List Char} (h : Skips ignored (more ++ rest) gap)
    (hmore : Skips ignored rest more) : Skips ignored rest (gap ++ more) := by
  induction h with
  | nil => exact hmore
  | cons hmem htakes _ ih =>
      rw [List.append_assoc]
      refine .cons hmem ?_ ih
      rwa [List.append_assoc]

theorem takes_of_match {count : Nat} (h : Matcher.matchLength? pattern text = some count)
    (hne : text.take count ≠ []) : Takes pattern (text.take count) (text.drop count) := by
  refine ⟨hne, ?_⟩
  rw [List.take_append_drop, matched?, h, Option.map_some]

theorem idle_iff : Idle pattern text ↔
    ∀ count, Matcher.matchLength? pattern text = some count → text.take count = [] := by
  simp [Idle, matched?]

theorem idle_nil (pattern : π) : Idle pattern [] := idle_iff.mpr fun _ _ => List.take_nil

theorem skips_ignoredInRound {patterns : List π} (hsubset : patterns ⊆ ignored) (text : List Char) :
    Skips ignored (text.drop (ignoredInRound patterns text)) (text.take (ignoredInRound patterns text)) := by
  induction patterns generalizing text with
  | nil => exact .nil
  | cons pattern patterns ih =>
      have hmem : pattern ∈ ignored := hsubset (by simp)
      simp only [ignoredInRound]
      generalize hcount : (Matcher.matchLength? pattern text).getD 0 = count
      have hrest := ih (fun _ h => hsubset (by simp [h])) (text.drop count)
      rw [List.take_add, ← List.drop_drop]
      cases hmatch : Matcher.matchLength? pattern text with
      | none =>
          obtain rfl : count = 0 := by simpa [hmatch] using hcount.symm
          simpa using hrest
      | some length =>
          obtain rfl : length = count := by simpa [hmatch] using hcount
          by_cases hnil : text.take length = []
          · rwa [hnil, List.nil_append]
          · refine .cons hmem ?_ hrest
            rw [List.take_append_drop]
            exact takes_of_match hmatch hnil

theorem idle_of_ignoredInRound_eq_zero {patterns : List π} (h : ignoredInRound patterns text = 0) :
    ∀ pattern ∈ patterns, Idle pattern text := by
  induction patterns with
  | nil => simp
  | cons pattern patterns ih =>
      simp only [ignoredInRound, Nat.add_eq_zero_iff] at h
      obtain ⟨hcount, hrest⟩ := h
      rw [hcount, List.drop_zero] at hrest
      have hidle : Idle pattern text := by
        refine idle_iff.mpr fun count hmatch => ?_
        obtain rfl : count = 0 := by simpa [hmatch] using hcount
        rfl
      exact List.forall_mem_cons.mpr ⟨hidle, ih hrest⟩

-- The rounds end, since each one but the last takes text away.
theorem gap_ignoredLength (ignored : List π) (text : List Char) :
    Gap ignored (text.take (ignoredLength ignored text)) (text.drop (ignoredLength ignored text)) := by
  fun_induction ignoredLength ignored text with
  | case1 => exact ⟨.nil, fun pattern _ => idle_nil pattern⟩
  | case2 c rest hround => exact ⟨.nil, idle_of_ignoredInRound_eq_zero hround⟩
  | case3 c rest count hround ih =>
      have hfirst := skips_ignoredInRound (List.Subset.refl ignored) (c :: rest)
      rw [hround, List.drop_succ_cons] at hfirst
      generalize ignoredLength ignored (rest.drop count) = more at ih
      have hrest : (c :: rest).drop (count + 1 + more) = (rest.drop count).drop more := by
        rw [← List.drop_drop, List.drop_succ_cons]
      have hgap : (c :: rest).take (count + 1 + more) =
          (c :: rest).take (count + 1) ++ (rest.drop count).take more := by
        rw [List.take_add, List.drop_succ_cons]
      rw [hrest, hgap]
      refine ⟨Skips.append ?_ ih.skips, ih.idle⟩
      rwa [List.take_append_drop]

-- A rule that finds nothing has no match but the empty one.
theorem idle_of_match_eq_none {rule : κ × π} (h : (match Matcher.matchLength? rule.2 text with
    | some (count + 1) => some (rule.1, count + 1)
    | _ => none) = none) : Idle rule.2 text := by
  refine idle_iff.mpr fun count hmatch => ?_
  cases count with
  | zero => rfl
  | succ count => simp [hmatch] at h

theorem firstMatch_of_eq_some {count : Nat} (hne : text ≠ [])
    (h : firstMatch? rules text = some (kind, count)) :
    FirstMatch rules kind (text.take count) (text.drop count) := by
  obtain ⟨before, ⟨kind', pattern⟩, after, rfl, hrule, hbefore⟩ := List.findSome?_eq_some_iff.mp h
  dsimp only at hrule
  split at hrule
  · rename_i length hmatch
    obtain ⟨rfl, rfl⟩ := by simpa using hrule
    refine ⟨before, pattern, after, rfl, takes_of_match hmatch (by simpa using hne), ?_⟩
    rw [List.take_append_drop]
    exact fun rule hmem => idle_of_match_eq_none (hbefore rule hmem)
  · simp at hrule

theorem idle_of_firstMatch?_eq_none (h : firstMatch? rules text = none) :
    ∀ rule ∈ rules, Idle rule.2 text :=
  fun rule hmem => idle_of_match_eq_none (List.findSome?_eq_none_iff.mp h rule hmem)

-- What a pull from a place in the text gives, and where it leaves the run.
inductive Pulled (lexer : Lexer κ π) (position : Position) :
    (text : List Char) → Option (Except LexicalError (Token κ) × State) → Prop
  | token {gap lexeme rest : List Char} {kind : κ} : Gap lexer.ignored gap (lexeme ++ rest) →
      FirstMatch lexer.rules kind lexeme rest →
      Pulled lexer position (gap ++ (lexeme ++ rest))
        (some (.ok ⟨kind, .ofList lexeme, position.advance gap⟩,
          ⟨rest, (position.advance gap).advance lexeme, false⟩))
  | ended {gap : List Char} : Gap lexer.ignored gap [] →
      Pulled lexer position gap (lexer.endMarker.map fun kind =>
        (.ok ⟨kind, "", position.advance gap⟩, ⟨[], position.advance gap, true⟩))
  | stuck {gap rest : List Char} : Gap lexer.ignored gap rest → rest ≠ [] →
      (∀ rule ∈ lexer.rules, Idle rule.2 rest) →
      Pulled lexer position (gap ++ rest)
        (some (.error ⟨.ofList (rest.take 3), position.advance gap⟩, ⟨rest, position.advance gap, true⟩))

theorem exists_skip (ignored : List π) (text : List Char) (position : Position) :
    ∃ gap rest, text = gap ++ rest ∧ Gap ignored gap rest ∧
      (⟨text, position, false⟩ : State).skip (ignoredLength ignored text) =
        ⟨rest, position.advance gap, false⟩ :=
  ⟨_, _, (List.take_append_drop _ text).symm, gap_ignoredLength ignored text, rfl⟩

theorem pulled_pull (lexer : Lexer κ π) (text : List Char) (position : Position) :
    Pulled lexer position text (lexer.pull ⟨text, position, false⟩) := by
  obtain ⟨gap, rest, htext, hgap, hskip⟩ := exists_skip lexer.ignored text position
  simp only [pull, Bool.false_eq_true, if_false, hskip]
  subst htext
  by_cases hempty : rest = []
  · subst hempty
    simpa [State.finish] using Pulled.ended hgap
  · have hnot : rest.isEmpty = false := by simpa using hempty
    simp only [hnot, Bool.false_eq_true, if_false]
    cases hfirst : firstMatch? lexer.rules rest with
    | none => exact .stuck hgap hempty (idle_of_firstMatch?_eq_none hfirst)
    | some found =>
        obtain ⟨kind, count⟩ := found
        have hmatch := firstMatch_of_eq_some hempty hfirst
        have hrest := List.take_append_drop count rest
        simp only [State.skip]
        generalize rest.take count = lexeme at hmatch hrest ⊢
        generalize rest.drop count = more at hmatch hrest ⊢
        subst hrest
        exact .token hgap hmatch

theorem pullAll_of_none (h : lexer.pull state = none) : lexer.pullAll state = [] := by
  rw [pullAll]
  split
  · rfl
  · rename_i hsome
    simp [h] at hsome

theorem pullAll_of_some {out : Except LexicalError (Token κ)}
    (h : lexer.pull state = some (out, next)) : lexer.pullAll state = out :: lexer.pullAll next := by
  rw [pullAll]
  split
  · rename_i hnone
    simp [h] at hnone
  · rename_i hsome
    obtain ⟨rfl, rfl⟩ := by simpa [h] using hsome
    rfl

theorem pullAll_of_finished (h : state.finished = true) : lexer.pullAll state = [] :=
  pullAll_of_none (by simp [pull, h])

-- The invariant of a run: it stands where the text read so far ends.
theorem tiling_pullAll (lexer : Lexer κ π) (read text : List Char) :
    Tiling lexer read text (lexer.pullAll ⟨text, .after read, false⟩) := by
  induction hlength : text.length using Nat.strongRecOn generalizing read text with
  | ind length ih =>
      have hpulled := pulled_pull lexer text (.after read)
      generalize hpull : lexer.pull ⟨text, .after read, false⟩ = pulled at hpulled
      cases hpulled with
      | @token gap lexeme rest kind hgap hfirst =>
          have hlt := weight_lt_of_pull hpull
          simp only [State.weight, Bool.false_eq_true, if_false] at hlt
          simp only [Position.advance_after] at hpull
          rw [pullAll_of_some hpull]
          exact .token hgap hfirst (ih rest.length (by omega) _ rest rfl)
      | ended hgap =>
          have hfinished : Tiling lexer read text _ := .finished hgap
          simp only [Position.advance_after] at hpull
          cases hmarker : lexer.endMarker with
          | none =>
              rw [hmarker] at hfinished hpull
              rw [pullAll_of_none hpull]
              exact hfinished
          | some kind =>
              rw [hmarker] at hfinished hpull
              rw [pullAll_of_some hpull, pullAll_of_finished rfl]
              exact hfinished
      | stuck hgap hne hidle =>
          simp only [Position.advance_after] at hpull
          rw [pullAll_of_some hpull, pullAll_of_finished rfl]
          exact .stuck hgap hne hidle

theorem tiling_run (lexer : Lexer κ π) (source : String) :
    Tiling lexer [] source.toList (lexer.run source) :=
  tiling_pullAll lexer [] source.toList

-- Where a pull leaves a run. A pull that gives nothing leaves it as it was.
def afterPull (lexer : Lexer κ π) (state : State) : State :=
  ((lexer.pull state).map (·.2)).getD state

-- Pull after pull gives the outcomes of the run one by one, and nothing ever after.
theorem pull_iterate (count : Nat) (state : State) :
    (lexer.pull (lexer.afterPull^[count] state)).map (·.1) = (lexer.pullAll state)[count]? := by
  induction count generalizing state with
  | zero =>
      cases hpull : lexer.pull state with
      | none => simp [hpull, pullAll_of_none hpull]
      | some pulled => simp [hpull, pullAll_of_some hpull]
  | succ count ih =>
      rw [Function.iterate_succ_apply, ih, afterPull]
      cases hpull : lexer.pull state with
      | none => simp [pullAll_of_none hpull]
      | some pulled => simp [pullAll_of_some hpull]

-- A run over a text tiles it, whatever its patterns match, and then it is over.
theorem run_tiles (lexer : Lexer κ π) (source : String) :
    Tiling lexer [] source.toList (lexer.run source) ∧
      ∀ count, (lexer.pull (lexer.afterPull^[count] (.start source))).map (·.1) =
        (lexer.run source)[count]? :=
  ⟨tiling_run lexer source, fun count => pull_iterate count (.start source)⟩

end Lexer

end Handheld
