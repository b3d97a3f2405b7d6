import Handheld.Proofs.Script.Program
import Handheld.Script.Compiler

namespace Handheld

-- The errors a source text can have, each with its place: text that is no token, a token out of place, and
-- an expression token whose text is no expression.
inductive CompileError.IsOfSource (input : List (Except LexicalError (Token String))) :
    CompileError → Text.Position → Prop
  | lexical {error : LexicalError} : .error error ∈ input → IsOfSource input (.lexical error) error.position
  | unexpected {token : Token String} : .ok token ∈ input →
      IsOfSource input (.parse (.unexpected token.kind token.position)) token.position
  | expression {fault : ExprFault} {token : Token String} : fault = .malformed ∨ fault = .overflow →
      token.kind = "single-expression" → .ok token ∈ input →
      Expression.read token.lexeme = .error ⟨fault, token.lexeme⟩ →
      IsOfSource input (.tree (.expression ⟨fault, token.lexeme⟩ (some token.position))) token.position

theorem CompileError.IsOfSource.position?_eq {input : List (Except LexicalError (Token String))}
    {error : CompileError} {position : Text.Position} (h : error.IsOfSource input position) :
    error.position? = some position := by
  cases h with
  | lexical | unexpected | expression => rfl

namespace Compiler

open Tables

-- The tokens of a source text, as far as it can be read, are parsed: they have a tree of the grammar, or
-- the error that ends them is reported, or one of them is.
inductive Parsed (tables : Tables) (input : List (Except LexicalError (Token String))) : Prop
  | tree {tokens : List (Token String)} {tree : ParseTree} : tables.parse input = .ok tree →
      IsDerivation Script.grammar Script.start Script.body tokens tree →
      (∀ token ∈ tokens, .ok token ∈ input ∧ Script.Wellspelled token) → Parsed tables input
  | lexical {error : LexicalError} : tables.parse input = .error (.lexical error) →
      .error error ∈ input → Parsed tables input
  | unexpected {token : Token String} :
      tables.parse input = .error (.unexpected token.kind token.position) → .ok token ∈ input →
      Parsed tables input

theorem Parsed.run_eq {tables : Tables} {input : List (Except LexicalError (Token String))}
    (h : Parsed tables input) :
    tables.run (tables.stepBound input.length) ⟨[], .start, input⟩ = some (tables.parse input) := by
  refine run_of_parse_ne ?_
  cases h with
  | tree hparse | lexical hparse | unexpected hparse => simp [hparse]

theorem parsed_run {tables : Tables} (htables : Script.tables = .ok tables) (source : String) :
    Parsed tables (Script.lexer.run source) := by
  have hbuilt := built_of_build htables
  have hterm := Script.grammar_terminated
  have hproductive := Script.grammar_allProductive
  have hlexes := Script.lexes_tokens source
  generalize Script.lexer.tokens source = lexed at hlexes
  cases hlexes with
  | @ok tokens last hrun hread hlast =>
      have hmarker := Script.forall_kind_ne_endMarker hread
      have hinside : ∃ token ∈ tokens ++ [last], token.kind = endMarker := ⟨last, by simp, hlast⟩
      rw [hrun]
      rcases hbuilt.parse_of_marker hterm hproductive (by simpa using hmarker) hinside with
        ⟨tree, htree⟩ | ⟨token, htoken, hparse⟩
      · refine .tree htree ((hbuilt.parse_eq_ok_iff hterm hmarker hlast).mp htree) fun token htoken => ?_
        exact ⟨by simp [htoken], Script.wellspelled_of_readBy (hread token htoken)⟩
      · exact .unexpected hparse (List.mem_map_of_mem htoken)
  | @error tokens error hrun hread =>
      have hmarker := Script.forall_kind_ne_endMarker hread
      rw [hrun]
      rcases hbuilt.parse_of_error hterm hproductive hmarker error with hparse | ⟨token, htoken, hparse⟩
      · exact .lexical hparse (by simp)
      · exact .unexpected hparse (by simp [htoken])

theorem isOfSource_of_program {compiler : Compiler} (htables : Script.tables = .ok compiler.tables)
    {source : String} {error : CompileError} (h : compiler.program source = .error error) :
    ∃ position, error.IsOfSource (Script.lexer.run (Script.clean source)) position := by
  unfold program parseTree at h
  cases parsed_run htables (Script.clean source) with
  | lexical hparse hmem =>
      rw [hparse] at h
      obtain rfl := Except.error.inj h
      exact ⟨_, .lexical hmem⟩
  | unexpected hparse hmem =>
      rw [hparse] at h
      obtain rfl := Except.error.inj h
      exact ⟨_, .unexpected hmem⟩
  | @tree tokens tree hparse hderivation htokens =>
      rw [hparse] at h
      obtain ⟨treeError, htree, rfl⟩ := mapError_eq_error_iff.mp h
      have hyields := Program.yields_ofTree hderivation fun token htoken => (htokens token htoken).2
      rw [htree] at hyields
      cases hyields with
      | error herror =>
          obtain ⟨token, htoken, hkind, fault, hread, rfl⟩ := herror
          obtain ⟨_, hfault⟩ := Expression.eq_of_read_error hread
          exact ⟨_, .expression hfault hkind (htokens token htoken).1 hread⟩

end Compiler

end Handheld
