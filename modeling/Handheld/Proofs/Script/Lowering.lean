import Handheld.Proofs.Script.Acceptance
import Handheld.Proofs.Script.Reading
import Handheld.Proofs.Script.Unambiguous

namespace Handheld.Compiler

open Tables

variable {settings : Settings} {compiler : Compiler} {source : String} {tokens : List (Token String)}
  {last : Token String}

-- The program of a script that the grammar accepts and whose expressions can all be read: what its
-- definitions say, and of two definitions of one name what the later one says.
theorem program_keeps_last (h : ofSettings settings = .ok compiler)
    (htokens : Compiler.tokens source = .ok (tokens ++ [last]))
    (hderives : Script.grammar.Derives Script.body (Grammar.terminals (kinds tokens)))
    (hreadable : ∀ token ∈ tokens, token.kind = "single-expression" →
      ∃ value, Expression.read token.lexeme = .ok value) :
    ∃ initial definitions program,
      (∀ initial' definitions', Script.WritesScript tokens initial' definitions' ↔
        initial' = initial ∧ definitions' = definitions) ∧
      (∃ first, tokens.head? = some first ∧ first.lexeme = initial ∧ first.position.line = 1) ∧
      compiler.program source = .ok (program, Script.redefinitions definitions) ∧
      Script.IsProgramOf initial definitions program := by
  have hlexed := mapError_eq_ok_iff.mp htokens
  have hlexes := Script.lexes_tokens (Script.clean source)
  rw [hlexed] at hlexes
  obtain ⟨hrun, _⟩ := hlexes.of_ok
  obtain ⟨result, hresult, hyields⟩ := exists_yields h hrun hderives
  rw [hresult]
  cases hyields with
  | error herror =>
      obtain ⟨token, htoken, hkind, fault, hfault, _⟩ := herror
      obtain ⟨value, hvalue⟩ := hreadable token htoken hkind
      simp [hvalue] at hfault
  | @ok found hfound =>
      obtain ⟨program, redefined⟩ := found
      obtain ⟨initial, definitions, hwrites, hprogramOf, rfl⟩ := hfound
      refine ⟨initial, definitions, program, fun initial' definitions' => ?_, ?_, rfl, hprogramOf⟩
      · constructor
        · exact fun hwrites' => hwrites'.unique hwrites
        · rintro ⟨rfl, rfl⟩
          exact hwrites
      · cases hwrites with
        | mk => exact ⟨_, rfl, rfl, Script.line_of_first hrun⟩

-- A script that defines a state and then defines it again.
def twice : String := "~a\n~a\x7b\n$x=[1]\n\x7d\n~a\x7b\nclear\n\x7d\n"

def twiceFirst : List (Token String) :=
  [⟨"state-name", "~a", ⟨2, 1⟩⟩] ++
    ([⟨"left-brace", "\x7b", ⟨2, 3⟩⟩, ⟨"newline", "\n", ⟨2, 4⟩⟩] ++
      [⟨"variable", "$x", ⟨3, 1⟩⟩, ⟨"assignment-op", "=", ⟨3, 3⟩⟩, ⟨"single-expression", "[1]", ⟨3, 4⟩⟩] ++
      [⟨"newline", "\n", ⟨3, 7⟩⟩, ⟨"right-brace", "\x7d", ⟨4, 1⟩⟩])

def twiceSecond : List (Token String) :=
  [⟨"state-name", "~a", ⟨5, 1⟩⟩] ++
    ([⟨"left-brace", "\x7b", ⟨5, 3⟩⟩, ⟨"newline", "\n", ⟨5, 4⟩⟩] ++
      [⟨"clear-screen", "clear", ⟨6, 1⟩⟩] ++
      [⟨"newline", "\n", ⟨6, 6⟩⟩, ⟨"right-brace", "\x7d", ⟨7, 1⟩⟩])

def twiceTokens : List (Token String) :=
  [⟨"state-name", "~a", ⟨1, 1⟩⟩, ⟨"newline", "\n", ⟨1, 3⟩⟩] ++
    (twiceFirst ++ ⟨"newline", "\n", ⟨4, 2⟩⟩ :: twiceSecond) ++ [⟨"newline", "\n", ⟨7, 2⟩⟩]

set_option maxRecDepth 20000 in
theorem tokens_twice : Compiler.tokens twice = .ok (twiceTokens ++ [⟨endMarker, "", ⟨8, 1⟩⟩]) := by
  rw [Compiler.tokens, Lexer.tokens, Lexer.run_eq_pullUpTo]
  cbv

theorem read_one : Expression.read "[1]" = .ok (.literal 1) := by
  have hbody : Expression.body? "[1]".toList = some ['1'] := rfl
  rw [Expression.read, Expression.readFault, hbody]
  simp only [Expr.ofBody, Lexer.tokens, Lexer.run_eq_pullUpTo]
  cbv

theorem twice_writes : Script.WritesScript twiceTokens "~a"
    [.state "~a" [.statement (.assign "$x" (.literal 1))], .state "~a" [.statement .clear]] := by
  have hfirst : Script.WritesDefinition twiceFirst
      (.state "~a" [.statement (.assign "$x" (.literal 1))]) :=
    .state rfl (.mk rfl (.only (.statement (.assign rfl (.single rfl read_one)))) rfl)
  have hsecond : Script.WritesDefinition twiceSecond (.state "~a" [.statement .clear]) :=
    .state rfl (.mk rfl (.only (.statement (.clear rfl))) rfl)
  exact .mk rfl (.more hfirst rfl (.only hsecond)) rfl

theorem program_keeps_last_twice : ∃ compiler, ofSettings .default = .ok compiler ∧
    ∃ program, compiler.program twice = .ok (program, [.state "~a"]) ∧
      program.states.keys = ["~a"] ∧
        ∃ state, program.states.get? "~a" = some state ∧ state.statements = [.clear] := by
  have hdefault : Settings.default.fault? = none := rfl
  obtain ⟨compiler, hcompiler⟩ := exists_ofSettings hdefault
  have hreadable : ∀ token ∈ twiceTokens, token.kind = "single-expression" →
      ∃ value, Expression.read token.lexeme = .ok value := by
    simp [twiceTokens, twiceFirst, twiceSecond, read_one]
  obtain ⟨initial, definitions, program, hunique, _, hprogram, hprogramOf⟩ :=
    program_keeps_last hcompiler tokens_twice twice_writes.makes hreadable
  obtain ⟨rfl, rfl⟩ := (hunique _ _).mp twice_writes
  have hkeys : program.states.keys = ["~a"] := hprogramOf.states.keys_eq
  have hlast : Option.Rel Script.IsStateOf (some [.statement .clear]) (program.states.get? "~a") :=
    hprogramOf.states.get?_rel "~a"
  generalize hfound : program.states.get? "~a" = found at hlast
  cases hlast with
  | some hstate =>
      exact ⟨compiler, hcompiler, program, hprogram, hkeys, _, hfound, hstate.statements_eq⟩

end Handheld.Compiler
