import Handheld.Proofs.Expr.Literals
import Handheld.Proofs.Script.Lowering

namespace Handheld.Compiler

open Tables

variable {settings : Settings} {compiler : Compiler} {source : String} {tokens : List (Token String)}
  {last : Token String}

-- A script is not compiled, for an error at a place of its text.
structure FailsAt (compiler : Compiler) (source : String) (error : CompileError)
    (position : Text.Position) : Prop where
  program_eq : compiler.program source = .error error
  isOfSource : error.IsOfSource (Script.lexer.run (Script.clean source)) position
  position?_eq : error.position? = some position

theorem program_of_parse {error : ParseError}
    (h : compiler.tables.parse (Script.lexer.run (Script.clean source)) = .error error) :
    compiler.program source = .error (ofParseError error) :=
  bind_eq_error_iff.mpr (.inl (mapError_eq_error_iff.mpr ⟨_, h, rfl⟩))

-- What is no token is the error of a script that begins with it.
theorem program_of_lexical (h : ofSettings settings = .ok compiler) {error : LexicalError}
    (hrun : Script.lexer.run (Script.clean source) = [.error error]) :
    compiler.program source = .error (.lexical error) := by
  have hmarker : ∀ token ∈ ([] : List (Token String)), token.kind ≠ endMarker := by simp
  have hparse := (built_of_build (tables_of_ofSettings h)).parse_of_error Script.grammar_terminated
    Script.grammar_allProductive hmarker error
  obtain hparse | ⟨_, htoken, _⟩ := hparse
  · rw [List.map_nil, List.nil_append, ← hrun] at hparse
    exact program_of_parse hparse
  · simp at htoken

-- The first token that no script goes on with is the error of a script without other errors.
theorem program_of_unexpected (h : ofSettings settings = .ok compiler)
    (hrun : Script.lexer.run (Script.clean source) = (tokens ++ [last]).map .ok) {place : Nat}
    (hplace : place < tokens.length)
    (hbefore : ∀ before < place, Script.grammar.Viable Script.body (kinds (tokens.take (before + 1))))
    (hnot : ¬ Script.grammar.Viable Script.body (kinds (tokens.take (place + 1)))) :
    compiler.program source =
      .error (.parse (.unexpected tokens[place].kind tokens[place].position)) := by
  obtain ⟨hread, _⟩ := Script.readBy_of_run hrun
  have hmarker : ∀ token ∈ (tokens ++ [last]).dropLast, token.kind ≠ endMarker := by
    simpa using Script.forall_kind_ne_endMarker hread
  have htake {count : Nat} (hle : count ≤ tokens.length) : (tokens ++ [last]).take count = tokens.take count :=
    List.take_append_of_le_length hle
  have hparse := (built_of_build (tables_of_ofSettings h)).parse_unexpected Script.grammar_terminated
    Script.grammar_allProductive hmarker (Nat.lt_of_lt_of_le hplace (by simp))
    (fun before hlt => by rw [htake (Nat.le_trans hlt hplace.le)]; exact hbefore before hlt)
    (by rwa [htake hplace])
  rw [← hrun, List.getElem_append_left hplace] at hparse
  exact program_of_parse hparse

-- An expression that cannot be read is the error of a script whose only expression it is.
theorem program_of_expression (h : ofSettings settings = .ok compiler)
    (hrun : Script.lexer.run (Script.clean source) = (tokens ++ [last]).map .ok)
    (hderives : Script.grammar.Derives Script.body (Grammar.terminals (kinds tokens))) {token : Token String}
    (honly : ∀ other ∈ tokens, other.kind = "single-expression" ↔ other = token) {fault : ExprFault}
    (hread : Expression.read token.lexeme = .error ⟨fault, token.lexeme⟩) (hmem : token ∈ tokens) :
    compiler.program source = .error (.tree (.expression ⟨fault, token.lexeme⟩ (some token.position))) := by
  obtain ⟨result, heq, hyields⟩ := exists_yields h hrun hderives
  rw [heq]
  cases hyields with
  | ok hfound =>
      obtain ⟨_, _, hwrites, _⟩ := hfound
      obtain ⟨value, hvalue⟩ := hwrites.readable token hmem ((honly token hmem).mpr rfl)
      simp [hvalue] at hread
  | error herror =>
      obtain ⟨other, hother, hkind, fault', hread', rfl⟩ := herror
      obtain rfl := (honly other hother).mp hkind
      obtain ⟨rfl, _⟩ := ExprError.mk.inj (Except.error.inj (hread.symm.trans hread'))
      rfl

-- A script of one assignment.
def assigning (text : String) : String := "~a\n~a\x7b\n$x=" ++ text ++ "\n\x7d\n"

def assigned (text : String) : Token String := ⟨"single-expression", text, ⟨3, 4⟩⟩

def assigningState (text : String) (column : Nat) : List (Token String) :=
  [⟨"state-name", "~a", ⟨2, 1⟩⟩] ++
    ([⟨"left-brace", "\x7b", ⟨2, 3⟩⟩, ⟨"newline", "\n", ⟨2, 4⟩⟩] ++
      ([⟨"variable", "$x", ⟨3, 1⟩⟩, ⟨"assignment-op", "=", ⟨3, 3⟩⟩] ++ [assigned text]) ++
      [⟨"newline", "\n", ⟨3, column⟩⟩, ⟨"right-brace", "\x7d", ⟨4, 1⟩⟩])

-- The line of the assignment ends at a column.
def assigningTokens (text : String) (column : Nat) : List (Token String) :=
  [⟨"state-name", "~a", ⟨1, 1⟩⟩, ⟨"newline", "\n", ⟨1, 3⟩⟩] ++ assigningState text column ++
    [⟨"newline", "\n", ⟨4, 2⟩⟩]

theorem assigning_writes : Script.WritesScript (assigningTokens "[1]" 7) "~a"
    [.state "~a" [.statement (.assign "$x" (.literal 1))]] := by
  have hstate : Script.WritesDefinition (assigningState "[1]" 7)
      (.state "~a" [.statement (.assign "$x" (.literal 1))]) :=
    .state rfl (.mk rfl (.only (.statement (.assign rfl (.single rfl read_one)))) rfl)
  exact .mk rfl (.only hstate) rfl

-- The grammar sees the kinds of the tokens only.
theorem assigning_makes (text : String) (column : Nat) : Script.Makes Script.body (assigningTokens text column) :=
  assigning_writes.makes

def assigningEnd : Token String := ⟨endMarker, "", ⟨5, 1⟩⟩

def AssigningLexed (text : String) (column : Nat) : Prop :=
  Script.lexer.run (Script.clean (assigning text)) = (assigningTokens text column ++ [assigningEnd]).map .ok

set_option maxRecDepth 20000 in
theorem assigning_one_lexed : AssigningLexed "[1]" 7 := by
  rw [AssigningLexed, Lexer.run_eq_pullUpTo]
  cbv

set_option maxRecDepth 20000 in
theorem assigning_plus_lexed : AssigningLexed "[1 +]" 9 := by
  rw [AssigningLexed, Lexer.run_eq_pullUpTo]
  cbv

set_option maxRecDepth 20000 in
theorem assigning_digit_lexed : AssigningLexed "[٣]" 7 := by
  rw [AssigningLexed, Lexer.run_eq_pullUpTo]
  cbv

theorem program_of_assigning (h : ofSettings settings = .ok compiler) {text : String} {column : Nat}
    (hlexed : AssigningLexed text column) {fault : ExprFault}
    (hread : Expression.read text = .error ⟨fault, text⟩) :
    compiler.program (assigning text) = .error (.tree (.expression ⟨fault, text⟩ (some ⟨3, 4⟩))) := by
  have honly : ∀ other ∈ assigningTokens text column,
      other.kind = "single-expression" ↔ other = assigned text := by
    simp [assigningTokens, assigningState, assigned]
  exact program_of_expression h hlexed (assigning_makes text column) honly hread
    (by simp [assigningTokens, assigningState])

theorem read_plus : Expression.read "[1 +]" = .error ⟨.malformed, "[1 +]"⟩ := by
  have hbody : Expression.body? "[1 +]".toList = some ['1', ' ', '+'] := rfl
  rw [Expression.read, Expression.readFault, hbody]
  simp only [Expr.ofBody, Lexer.tokens, Lexer.run_eq_pullUpTo]
  cbv

-- A digit of another script stands for no value.
theorem read_digit : Expression.read "[٣]" = .error ⟨.overflow, "[٣]"⟩ :=
  (@Expression.read_digits ['٣'] (by decide) (List.all_eq_true.mp (by decide))).mpr
    (.inr ⟨'٣', by simp, by decide⟩)

theorem star_lexed : Script.lexer.run (Script.clean "  *") = [.error ⟨"*\n", ⟨1, 3⟩⟩] := by
  rw [Lexer.run_eq_pullUpTo]
  cbv

-- Two names on one line.
def names : List (Token String) :=
  [Script.firstName, Script.secondName, ⟨"newline", "\n", ⟨1, 6⟩⟩]

def namesEnd : Token String := ⟨endMarker, "", ⟨2, 1⟩⟩

set_option maxRecDepth 20000 in
theorem names_lexed : Script.lexer.run (Script.clean "~a ~b") = (names ++ [namesEnd]).map .ok := by
  rw [Lexer.run_eq_pullUpTo]
  cbv

theorem program_of_names (h : ofSettings settings = .ok compiler) :
    compiler.program "~a ~b" = .error (.parse (.unexpected "state-name" ⟨1, 4⟩)) := by
  have hplace : 1 < names.length := by decide
  have hfirst : Script.grammar.Viable Script.body (kinds (names.take 1)) := Script.viable_clearing 1
  refine program_of_unexpected h names_lexed hplace (fun before hbefore => ?_) Script.not_viable_names
  rwa [Nat.lt_one_iff.mp hbefore]

-- Compiling always ends, with a program or with an error of the source text at its place.
theorem program_total (h : settings.fault? = none) :
    ∃ compiler, ofSettings settings = .ok compiler ∧ ∀ source,
      (∃ fuel result, compiler.tables.run fuel
          ⟨[], .start, Script.lexer.run (Script.clean source)⟩ = some result) ∧
        ((∃ program, compiler.program source = .ok program) ∨
          ∃ error position, compiler.FailsAt source error position) := by
  obtain ⟨compiler, hcompiler⟩ := exists_ofSettings h
  have htables := tables_of_ofSettings hcompiler
  refine ⟨compiler, hcompiler, fun source => ?_⟩
  refine ⟨⟨_, _, (parsed_run htables (Script.clean source)).run_eq⟩, ?_⟩
  cases hprogram : compiler.program source with
  | ok program => exact .inl ⟨program, rfl⟩
  | error error =>
      obtain ⟨position, hsource⟩ := isOfSource_of_program htables hprogram
      exact .inr ⟨error, position, hprogram, hsource, hsource.position?_eq⟩

-- A script that is compiled, and scripts with each kind of error.
theorem program_total_default : Settings.default.fault? = none ∧
    ∃ compiler, ofSettings .default = .ok compiler ∧
      (∃ program, compiler.program (assigning "[1]") = .ok program) ∧
      compiler.FailsAt "  *" (.lexical ⟨"*\n", ⟨1, 3⟩⟩) ⟨1, 3⟩ ∧
      compiler.FailsAt "~a ~b" (.parse (.unexpected "state-name" ⟨1, 4⟩)) ⟨1, 4⟩ ∧
      compiler.FailsAt (assigning "[1 +]") (.tree (.expression ⟨.malformed, "[1 +]"⟩ (some ⟨3, 4⟩))) ⟨3, 4⟩ ∧
      compiler.FailsAt (assigning "[٣]") (.tree (.expression ⟨.overflow, "[٣]"⟩ (some ⟨3, 4⟩))) ⟨3, 4⟩ := by
  have hdefault : Settings.default.fault? = none := rfl
  obtain ⟨compiler, hcompiler, hall⟩ := program_total hdefault
  have hone := (exists_program_iff hcompiler assigning_one_lexed).mpr
    ⟨assigning_writes.makes, assigning_writes.readable⟩
  have hfails {source : String} {error : CompileError} {position : Text.Position}
      (herror : compiler.program source = .error error) (hposition : error.position? = some position) :
      compiler.FailsAt source error position := by
    obtain ⟨_, ⟨_, hok⟩ | ⟨error', position', hfails⟩⟩ := hall source
    · simp [herror] at hok
    · obtain rfl := Except.error.inj (herror.symm.trans hfails.program_eq)
      obtain rfl := Option.some.inj (hposition.symm.trans hfails.position?_eq)
      exact hfails
  exact ⟨hdefault, compiler, hcompiler, hone, hfails (program_of_lexical hcompiler star_lexed) rfl,
    hfails (program_of_names hcompiler) rfl,
    hfails (program_of_assigning hcompiler assigning_plus_lexed read_plus) rfl,
    hfails (program_of_assigning hcompiler assigning_digit_lexed read_digit) rfl⟩

end Handheld.Compiler
