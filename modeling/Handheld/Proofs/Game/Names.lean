import Handheld.Proofs.Expr.Evaluation
import Handheld.Proofs.Game.Flow

namespace Handheld

namespace Expr

-- The constants that an expression reads.
def constants : Expr → List String
  | literal _ | var _ => []
  | const name => [name]
  | unary _ operand => operand.constants
  | binary _ left right => left.constants ++ right.constants
  | random first second => first.constants ++ second.constants

variable {ρ : Type} [RandomSource ρ] {scope : Scope} {source after : ρ} {expr : Expr} {name : String}

theorem mem_constants_of_visit {value? : Option Value}
    (h : .const name value? ∈ (expr.trace scope source).1.visits) :
    name ∈ expr.constants ∧ scope.const? name = value? := by
  induction expr generalizing source with
  | literal | var => simp [trace] at h
  | const other =>
      obtain ⟨rfl, rfl⟩ := by simpa [trace] using h
      exact ⟨List.mem_singleton_self name, rfl⟩
  | unary op operand ih =>
      have hmem : .const name value? ∈ (operand.trace scope source).1.visits := by simpa [trace] using h
      exact ih hmem
  | binary op left right ihl ihr | random left right ihl ihr =>
      simp only [trace, Trace.visits_mk, List.mem_append, List.mem_singleton, reduceCtorEq, or_false] at h
      rw [constants, List.mem_append]
      rcases h with hleft | hright
      · exact (ihl hleft).imp_left .inl
      · exact (ihr hright).imp_left .inr

-- An evaluation that fails does so by arithmetic or for want of a constant.
theorem fault_of_eval {fault : ExprFault} (h : (expr.eval scope).run source = (.error fault, after)) :
    fault = .divisionByZero ∨ fault = .overflow ∨
      ∃ name ∈ expr.constants, scope.const? name = none ∧ fault = .unknownConstant name := by
  have hends := ends_eval scope expr source
  rw [h] at hends
  obtain ⟨_, visit, _, hvisits, hfault, _⟩ :=
    List.findSome?_eq_some_iff.mp ((hends.eq_error_iff fault).mp rfl)
  cases visit with
  | given | random => simp [Visit.fault?] at hfault
  | const name value? =>
      have hvisit : .const name value? ∈ (expr.trace scope source).1.visits := by simp [hvisits]
      obtain ⟨hname, hvalue⟩ := mem_constants_of_visit hvisit
      cases value? with
      | some value => simp [Visit.fault?] at hfault
      | none => exact .inr (.inr ⟨name, hname, hvalue, (Option.some.inj hfault).symm⟩)
  | unary op operand =>
      simp only [Visit.fault?] at hfault
      split at hfault
      · simp at hfault
      · exact .inr (.inl (Option.some.inj hfault).symm)
  | binary op left right =>
      obtain ⟨error, _, rfl⟩ := Option.map_eq_some_iff.mp hfault
      cases error with
      | divisionByZero => exact .inl rfl
      | overflow => exact .inr (.inl rfl)

end Expr

-- The constants that every game has.
def Settings.constants : List String := ["!W", "!H", "!FPS"]

theorem Settings.notMem_constants {settings : Settings} {name : String}
    (h : settings.constant? name = none) : name ∉ constants := by
  intro hmem
  simp only [constants, List.mem_cons, List.not_mem_nil, or_false] at hmem
  rcases hmem with rfl | rfl | rfl <;> simp [constant?] at h

namespace Statement

-- The expressions that a statement evaluates itself.
def expressions : Statement → List Expression
  | assign _ value => [value]
  | clear => []
  | display _ x y => [x, y]
  | goto _ => []
  | ifTrue condition _ => [condition]
  | ifFalse condition _ => [condition]

mutual

-- A statement with all that stand inside it, at any depth.
def parts : Statement → List Statement
  | ifTrue condition body => ifTrue condition body :: partsOfAll body
  | ifFalse condition body => ifFalse condition body :: partsOfAll body
  | assign name value => [assign name value]
  | clear => [clear]
  | display shape x y => [display shape x y]
  | goto state => [goto state]

def partsOfAll : List Statement → List Statement
  | [] => []
  | statement :: rest => statement.parts ++ partsOfAll rest

end

theorem mem_parts (statement : Statement) : statement ∈ statement.parts := by
  cases statement <;> simp [parts]

theorem partsOfAll_append (block rest : List Statement) :
    partsOfAll (block ++ rest) = partsOfAll block ++ partsOfAll rest := by
  induction block with
  | nil => rfl
  | cons statement block ih => simp [partsOfAll, ih]

variable {ρ : Type} [RandomSource ρ] {stage : Stage} {machine after : Machine ρ} {statement : Statement}
  {block inner ran due : List Statement} {error : RuntimeError}

theorem Step.parts_subset (h : Step stage machine statement inner after) :
    partsOfAll inner ⊆ statement.parts := by
  intro part hpart
  cases h with
  | assign | clear | display => simp [partsOfAll] at hpart
  | ifTrue | ifFalse =>
      split at hpart
      · exact List.mem_cons_of_mem _ hpart
      · simp [partsOfAll] at hpart

-- All that a run leaves due stands in its block.
theorem Runs.parts_subset (h : Runs stage machine block ran after due) :
    partsOfAll due ⊆ partsOfAll block := by
  induction h with
  | refl => exact List.Subset.refl _
  | step hstep _ ih =>
      intro part hpart
      have hinner := ih hpart
      rw [partsOfAll_append, List.mem_append] at hinner
      rw [partsOfAll, List.mem_append]
      exact hinner.imp_left fun h => hstep.parts_subset h

theorem Fails.cases_error (h : Fails stage machine statement error after) :
    (∃ expression ∈ statement.expressions, ∃ machine after : Machine ρ, ∃ e,
      machine.eval stage.settings expression = (.error e, after) ∧ error = .expression e) ∨
    ∃ shape x y, statement = .display shape x y ∧ stage.shapes.get? shape = none := by
  cases h with
  | assign heval | column heval | ifTrue heval | ifFalse heval =>
      exact .inl ⟨_, by simp [expressions], _, _, _, heval, rfl⟩
  | row _ heval => exact .inl ⟨_, by simp [expressions], _, _, _, heval, rfl⟩
  | shape _ _ hshape => exact .inr ⟨_, _, _, rfl, hshape⟩

end Statement

namespace Program

-- A statement stands somewhere in a state or in one of its handlers.
def Uses (program : Program) (statement : Statement) : Prop :=
  ∃ name state call, program.states.get? name = some state ∧
    statement ∈ Statement.partsOfAll (state.blockOf call)

-- All states and shapes that a program names are defined.
structure Resolved (program : Program) : Prop where
  initial : program.states.contains program.initial
  goto {target : String} : program.Uses (.goto target) → program.states.contains target
  display {shape : String} {x y : Expression} : program.Uses (.display shape x y) →
    program.shapes.contains shape

-- The errors that remain then: those of arithmetic in an expression of the program, and a constant in it
-- that no game has.
inductive CanFail (program : Program) : RuntimeError → Prop
  | divisionByZero {statement : Statement} {expression : Expression} : program.Uses statement →
      expression ∈ statement.expressions →
      CanFail program (.expression ⟨.divisionByZero, expression.text⟩)
  | overflow {statement : Statement} {expression : Expression} : program.Uses statement →
      expression ∈ statement.expressions → CanFail program (.expression ⟨.overflow, expression.text⟩)
  | unknownConstant {statement : Statement} {expression : Expression} {name : String} :
      program.Uses statement → expression ∈ statement.expressions → name ∈ expression.root.constants →
      name ∉ Settings.constants →
      CanFail program (.expression ⟨.unknownConstant name, expression.text⟩)

variable {ρ : Type} [RandomSource ρ] {program : Program} {machine after : Machine ρ} {settings : Settings}
  {statement : Statement} {expression : Expression} {error : ExprError}

theorem canFail_of_eval (huses : program.Uses statement) (hexpression : expression ∈ statement.expressions)
    (heval : machine.eval settings expression = (.error error, after)) :
    program.CanFail (.expression error) := by
  simp only [Machine.eval, Expression.run_eval] at heval
  rcases hroot : (expression.root.eval (machine.scope settings)).run machine.random with ⟨ended, source⟩
  rw [hroot] at heval
  obtain ⟨fault, rfl, rfl⟩ := mapError_eq_error_iff.mp (congrArg Prod.fst heval)
  rcases Expr.fault_of_eval hroot with rfl | rfl | ⟨name, hname, hnone, rfl⟩
  · exact .divisionByZero huses hexpression
  · exact .overflow huses hexpression
  · exact .unknownConstant huses hexpression hname (Settings.notMem_constants hnone)

end Program

namespace Game

-- A game is called, or taken back to its beginning.
inductive Turn where
  | call (call : Call)
  | reset

variable {ρ : Type} [RandomSource ρ]

def act (game : Game ρ) : Turn → Game ρ
  | .call call => (game.call call).2
  | .reset => game.reset

-- A failed call is no end: the game goes on from where it has come.
def play (game : Game ρ) (turns : List Turn) : Game ρ := turns.foldl act game

theorem program_call (game : Game ρ) (call : Call) : (game.call call).2.program = game.program := by
  cases hstate : game.state? with
  | error error => rw [call_of_unknown hstate]
  | ok state => rw [call_of_state hstate]; rfl

theorem program_act (game : Game ρ) (turn : Turn) : (game.act turn).program = game.program := by
  cases turn with
  | call call => exact program_call game call
  | reset => rfl

theorem program_play (game : Game ρ) (turns : List Turn) :
    (game.play turns).program = game.program := by
  induction turns generalizing game with
  | nil => rfl
  | cons turn turns ih => exact (ih (game.act turn)).trans (program_act game turn)

-- The current state is one that the program defines.
def IsPlaced (game : Game ρ) : Prop := game.program.states.contains game.machine.current

variable {game : Game ρ}

omit [RandomSource ρ] in
theorem IsPlaced.exists_state (h : game.IsPlaced) :
    ∃ state, game.program.states.get? game.machine.current = some state ∧ game.state? = .ok state := by
  obtain ⟨state, hstate⟩ := Option.isSome_iff_exists.mp h
  exact ⟨state, hstate, by simp [state?, hstate]⟩

-- A call leaves the game in a state that is defined, and fails in an expression if it fails.
theorem IsPlaced.call (h : game.IsPlaced) (hresolved : game.program.Resolved) (call : Call) :
    (game.call call).2.IsPlaced ∧
      ∀ error after, game.call call = (.failed error, after) → game.program.CanFail error := by
  obtain ⟨state, hget, hstate⟩ := h.exists_state
  obtain ⟨ran, before, due, hruns, hends⟩ :=
    Statement.stops game.stage game.machine (state.blockOf call)
  have huses (statement : Statement) (rest : List Statement) (hdue : due = statement :: rest) :
      game.program.Uses statement := by
    refine ⟨_, state, call, hget, hruns.parts_subset ?_⟩
    rw [hdue, Statement.partsOfAll, List.mem_append]
    exact .inl statement.mem_parts
  have hcurrent : before.current = game.machine.current := hruns.current
  simp only [call_of_state hstate, runBlock]
  generalize Statement.runBlock game.stage game.machine (state.blockOf call) = result at hends ⊢
  cases hends with
  | finished =>
      refine ⟨?_, by simp⟩
      rw [IsPlaced, withMachine, hcurrent]
      exact h
  | moved => exact ⟨hresolved.goto (huses _ _ rfl), by simp⟩
  | @failed statement rest error after hfails =>
      have hstatement := huses statement rest rfl
      obtain ⟨random, rfl⟩ := hfails.exists_setRandom
      refine ⟨?_, ?_⟩
      · rw [IsPlaced, withMachine, Machine.setRandom, hcurrent]
        exact h
      · rintro _ _ ⟨⟩
        rcases hfails.cases_error with ⟨expression, hmem, machine, after, e, heval, rfl⟩ |
          ⟨shape, x, y, rfl, hshape⟩
        · exact Program.canFail_of_eval hstatement hmem heval
        · have hdefined := hresolved.display hstatement
          simp [Dict.contains, show game.program.shapes.get? shape = none from hshape] at hdefined

theorem IsPlaced.play (h : game.IsPlaced) (hresolved : game.program.Resolved) (turns : List Turn) :
    (game.play turns).IsPlaced := by
  induction turns generalizing game with
  | nil => exact h
  | cons turn turns ih =>
      have hact : (game.act turn).IsPlaced := by
        cases turn with
        | call call => exact (h.call hresolved call).1
        | reset => exact hresolved.initial
      exact ih hact ((program_act game turn).symm ▸ hresolved)

-- A game whose names are all defined never looks for a state or a shape that is not there, whatever is
-- done to it and whichever calls have failed before. What still fails is arithmetic, and expressions with
-- constants that no game has.
theorem never_stuck {program : Program} (hresolved : program.Resolved) (settings : Settings) (source : ρ)
    (turns : List Turn) :
    let game := (Game.start program settings source).play turns
    program.states.contains game.machine.current ∧
      ∀ call error after, game.call call = (.failed error, after) → program.CanFail error := by
  intro game
  have hprogram : game.program = program := program_play _ turns
  have hstart : (Game.start program settings source).IsPlaced := hresolved.initial
  have hplaced : game.IsPlaced := hstart.play hresolved turns
  rw [← hprogram] at hresolved
  refine ⟨hprogram ▸ hplaced, fun call error after hcall => ?_⟩
  rw [← hprogram]
  exact (hplaced.call hresolved call).2 error after hcall

-- A lamp that is off, and goes on at an even number once it is wanted.
def lampOff : GameState where
  statements := [.ifTrue ⟨"[$wanted]", .var "$wanted"⟩
    [.ifFalse ⟨"[$number % 2]", .binary .mod (.var "$number") (.literal 2)⟩ [.goto "on"]]]
  handlers := .ofList [(.a, [.assign "$wanted" (.literal 1)])]

def lampOn : GameState where
  statements := [.display "light" (.literal 0) ⟨"[!H / $number]", .binary .div (.const "!H") (.var "$number")⟩]
  handlers := .ofList [(.b, [.goto "off"])]

def lamp : Program := ⟨.ofList [("off", lampOff), ("on", lampOn)], .ofList [("light", ⟨[[.black]]⟩)], "off"⟩

-- A block of the lamp is one of its two lists of statements, a handler, or empty.
theorem lamp_uses {statement : Statement} (h : lamp.Uses statement) :
    statement ∈ Statement.partsOfAll lampOff.statements ∨
    statement ∈ Statement.partsOfAll lampOn.statements ∨
    statement = .assign "$wanted" (.literal 1) ∨ statement = .goto "off" := by
  obtain ⟨name, state, call, hstate, hmem⟩ := h
  have hentries : (if "off" = name then some lampOff else if "on" = name then some lampOn else none) =
      some state := hstate
  have hstates : state = lampOff ∨ state = lampOn := by grind
  rcases hstates with rfl | rfl <;> rcases call with _ | button
  · exact .inl hmem
  · cases button <;> simp_all [GameState.blockOf, lampOff, Statement.partsOfAll, Statement.parts,
      Dict.ofList, Dict.insert, Dict.insertIn, Dict.get?, Dict.lookupIn, Dict.empty]
  · exact .inr (.inl hmem)
  · cases button <;> simp_all [GameState.blockOf, lampOn, Statement.partsOfAll, Statement.parts,
      Dict.ofList, Dict.insert, Dict.insertIn, Dict.get?, Dict.lookupIn, Dict.empty]

theorem lamp_resolved : lamp.Resolved := by
  refine ⟨rfl, ?_, ?_⟩
  · intro target h
    have htarget : target = "on" ∨ target = "off" := by
      simpa [lampOff, lampOn, Statement.partsOfAll, Statement.parts] using lamp_uses h
    rcases htarget with rfl | rfl <;> rfl
  · intro shape x y h
    have hshape : shape = "light" := by
      have huses := lamp_uses h
      simp_all [lampOff, lampOn, Statement.partsOfAll, Statement.parts]
    exact hshape ▸ rfl

theorem never_stuck_lamp : lamp.Resolved ∧
    let game := (Game.start lamp .default (RandomStream.ofSeed 0)).play
      [.call (.press .a), .call .tick, .call .tick, .reset, .call .tick]
    lamp.states.contains game.machine.current ∧
      ∀ call error after, game.call call = (.failed error, after) → lamp.CanFail error :=
  ⟨lamp_resolved, never_stuck lamp_resolved .default (RandomStream.ofSeed 0)
    [.call (.press .a), .call .tick, .call .tick, .reset, .call .tick]⟩

end Game

end Handheld
