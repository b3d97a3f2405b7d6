import Handheld.Game.Basic
import Handheld.Proofs.Game.Display

namespace Handheld

namespace Machine

variable {ρ : Type} (machine : Machine ρ)

theorem get?_assign (name other : String) (value : Value) : (machine.assign name value).memory.get? other =
    if name = other then some value else machine.memory.get? other :=
  Dict.get?_insert ..

theorem get_assign (name other : String) (value : Value) :
    (machine.assign name value).get other = if name = other then value else machine.get other := by
  simp only [get, get?_assign]
  split <;> rfl

theorem isOn_draw_clear (row column : Nat) :
    (machine.draw machine.display.clear).display.isOn row column = false :=
  machine.display.isOn_clear row column

theorem isOn_draw_overlay {shape : Shape} {x y : Value} {row column : Nat} (hfits : machine.display.Fits)
    (hshape : shape.IsCountable) (hrow : row < machine.display.height) (hcolumn : column < machine.display.width) :
    (machine.draw (machine.display.overlay shape x y)).display.isOn row column ↔
      machine.display.isOn row column ∨ shape.IsOpaqueAt (row - y.toInt) (column - x.toInt) :=
  Display.isOn_overlay hfits hshape hrow hcolumn

end Machine

namespace Statement

variable {ρ : Type} [RandomSource ρ]

-- A statement that runs to its end, the statements it leaves due before those that follow it, and the
-- machine then. A goto never does.
inductive Step (stage : Stage) (machine : Machine ρ) : Statement → List Statement → Machine ρ → Prop
  | assign {name : String} {expression : Expression} {value : Value} {after : Machine ρ} :
      machine.eval stage.settings expression = (.ok value, after) →
      Step stage machine (.assign name expression) [] (after.assign name value)
  | clear : Step stage machine .clear [] (machine.draw machine.display.clear)
  | display {shape : String} {x y : Expression} {column row : Value} {middle after : Machine ρ}
      {picture : Shape} : machine.eval stage.settings x = (.ok column, middle) →
      middle.eval stage.settings y = (.ok row, after) → stage.shapes.get? shape = some picture →
      Step stage machine (.display shape x y) [] (after.draw (after.display.overlay picture column row))
  | ifTrue {condition : Expression} {body : List Statement} {value : Value} {after : Machine ρ} :
      machine.eval stage.settings condition = (.ok value, after) →
      Step stage machine (.ifTrue condition body) (if value ≠ 0 then body else []) after
  | ifFalse {condition : Expression} {body : List Statement} {value : Value} {after : Machine ρ} :
      machine.eval stage.settings condition = (.ok value, after) →
      Step stage machine (.ifFalse condition body) (if value = 0 then body else []) after

-- What is seen of a statement that has run to its end: the values of the variables, and the pixels.
def Effect (stage : Stage) (machine after : Machine ρ) : Statement → Prop
  | .assign name expression => ∃ value last, machine.eval stage.settings expression = (.ok value, last) ∧
      (∀ other, after.memory.get? other = if name = other then some value else machine.memory.get? other) ∧
      after.display = machine.display
  | .clear => after.memory = machine.memory ∧ after.display.size = machine.display.size ∧
      ∀ r c, after.display.isOn r c = false
  | .display shape x y => ∃ column row middle last picture,
      machine.eval stage.settings x = (.ok column, middle) ∧
      middle.eval stage.settings y = (.ok row, last) ∧ stage.shapes.get? shape = some picture ∧
      after.memory = machine.memory ∧ after.display.size = machine.display.size ∧
      (machine.display.Fits → picture.IsCountable →
        ∀ r < machine.display.height, ∀ c < machine.display.width,
          (after.display.isOn r c ↔
            machine.display.isOn r c ∨ picture.IsOpaqueAt (r - row.toInt) (c - column.toInt)))
  | .goto _ => False
  | .ifTrue _ _ | .ifFalse _ _ => after.memory = machine.memory ∧ after.display = machine.display

-- A statement that fails by itself: a condition does so by its expression, never by its body.
inductive Fails (stage : Stage) (machine : Machine ρ) : Statement → RuntimeError → Machine ρ → Prop
  | assign {name : String} {expression : Expression} {error : ExprError} {after : Machine ρ} :
      machine.eval stage.settings expression = (.error error, after) →
      Fails stage machine (.assign name expression) (.expression error) after
  | column {shape : String} {x y : Expression} {error : ExprError} {after : Machine ρ} :
      machine.eval stage.settings x = (.error error, after) →
      Fails stage machine (.display shape x y) (.expression error) after
  | row {shape : String} {x y : Expression} {column : Value} {error : ExprError}
      {middle after : Machine ρ} : machine.eval stage.settings x = (.ok column, middle) →
      middle.eval stage.settings y = (.error error, after) →
      Fails stage machine (.display shape x y) (.expression error) after
  | shape {shape : String} {x y : Expression} {column row : Value} {middle after : Machine ρ} :
      machine.eval stage.settings x = (.ok column, middle) →
      middle.eval stage.settings y = (.ok row, after) → stage.shapes.get? shape = none →
      Fails stage machine (.display shape x y) (.unknownShape shape) after
  | ifTrue {condition : Expression} {body : List Statement} {error : ExprError} {after : Machine ρ} :
      machine.eval stage.settings condition = (.error error, after) →
      Fails stage machine (.ifTrue condition body) (.expression error) after
  | ifFalse {condition : Expression} {body : List Statement} {error : ExprError} {after : Machine ρ} :
      machine.eval stage.settings condition = (.error error, after) →
      Fails stage machine (.ifFalse condition body) (.expression error) after

-- The statements that are run one after another, bodies in place of their conditions, and those that are
-- due after them.
inductive Runs (stage : Stage) : Machine ρ → List Statement → List Statement → Machine ρ →
    List Statement → Prop
  | refl {machine : Machine ρ} {due : List Statement} : Runs stage machine due [] machine due
  | step {machine middle after : Machine ρ} {statement : Statement} {inner rest ran due : List Statement} :
      Step stage machine statement inner middle → Runs stage middle (inner ++ rest) ran after due →
      Runs stage machine (statement :: rest) (statement :: ran) after due

-- How a run ends with what is due.
inductive Ends (stage : Stage) (machine : Machine ρ) : List Statement → Outcome × Machine ρ → Prop
  | finished : Ends stage machine [] (.finished, machine)
  | moved {state : String} {rest : List Statement} :
      Ends stage machine (.goto state :: rest) (.moved, machine.moveTo state)
  | failed {statement : Statement} {rest : List Statement} {error : RuntimeError} {after : Machine ρ} :
      Fails stage machine statement error after →
      Ends stage machine (statement :: rest) (.failed error, after)

variable {stage : Stage} {machine after : Machine ρ} {statement : Statement}
  {block inner rest ran due : List Statement} {error : RuntimeError}

theorem exists_setRandom_of_eval {settings : Settings} {expression : Expression}
    {result : Except ExprError Value} (h : machine.eval settings expression = (result, after)) :
    ∃ random, after = machine.setRandom random :=
  ⟨_, (Prod.mk.inj h).2.symm⟩

theorem current_of_eval {settings : Settings} {expression : Expression}
    {result : Except ExprError Value} (h : machine.eval settings expression = (result, after)) :
    after.current = machine.current := by
  obtain ⟨_, rfl⟩ := exists_setRandom_of_eval h
  rfl

theorem Step.effect (h : Step stage machine statement inner after) : Effect stage machine after statement := by
  cases h with
  | assign heval =>
      obtain ⟨_, rfl⟩ := exists_setRandom_of_eval heval
      exact ⟨_, _, heval, fun other => Machine.get?_assign _ _ other _, rfl⟩
  | clear => exact ⟨rfl, rfl, machine.isOn_draw_clear⟩
  | display hx hy hshape =>
      obtain ⟨_, rfl⟩ := exists_setRandom_of_eval hx
      obtain ⟨_, rfl⟩ := exists_setRandom_of_eval hy
      refine ⟨_, _, _, _, _, hx, hy, hshape, rfl, rfl, fun hfits hpicture r hr c hc => ?_⟩
      exact machine.isOn_draw_overlay hfits hpicture hr hc
  | ifTrue heval | ifFalse heval =>
      obtain ⟨_, rfl⟩ := exists_setRandom_of_eval heval
      exact ⟨rfl, rfl⟩

-- What a statement does before it fails can be seen in the random numbers only.
theorem Fails.exists_setRandom (h : Fails stage machine statement error after) :
    ∃ random, after = machine.setRandom random := by
  cases h with
  | assign heval | column heval | ifTrue heval | ifFalse heval => exact exists_setRandom_of_eval heval
  | row hx hy | shape hx hy =>
      obtain ⟨_, rfl⟩ := exists_setRandom_of_eval hx
      obtain ⟨random, rfl⟩ := exists_setRandom_of_eval hy
      exact ⟨random, rfl⟩

theorem Step.current (h : Step stage machine statement inner after) : after.current = machine.current := by
  cases h with
  | assign heval => exact (current_of_eval heval :)
  | clear => rfl
  | display hx hy => exact (current_of_eval hy).trans (current_of_eval hx)
  | ifTrue heval | ifFalse heval => exact current_of_eval heval

theorem Runs.current (h : Runs stage machine block ran after due) : after.current = machine.current := by
  induction h with
  | refl => rfl
  | step hstep _ ih => exact ih.trans hstep.current

theorem Runs.goto_notMem (h : Runs stage machine block ran after due) (state : String) :
    .goto state ∉ ran := by
  induction h with
  | refl => simp
  | step hstep _ ih =>
      cases hstep <;> simpa using ih

-- A statement runs to its end, is a goto or fails.
theorem step_cases (stage : Stage) (machine : Machine ρ) (statement : Statement) :
    (∃ inner after, Step stage machine statement inner after) ∨
      (∃ state, statement = .goto state) ∨ ∃ error after, Fails stage machine statement error after := by
  cases statement with
  | assign name expression =>
      rcases heval : machine.eval stage.settings expression with ⟨_ | _, after⟩
      · exact .inr (.inr ⟨_, _, .assign heval⟩)
      · exact .inl ⟨_, _, .assign heval⟩
  | clear => exact .inl ⟨_, _, .clear⟩
  | display shape x y =>
      rcases hx : machine.eval stage.settings x with ⟨_ | _, middle⟩
      · exact .inr (.inr ⟨_, _, .column hx⟩)
      · rcases hy : middle.eval stage.settings y with ⟨_ | _, after⟩
        · exact .inr (.inr ⟨_, _, .row hx hy⟩)
        · cases hshape : stage.shapes.get? shape with
          | none => exact .inr (.inr ⟨_, _, .shape hx hy hshape⟩)
          | some picture => exact .inl ⟨_, _, .display hx hy hshape⟩
  | goto state => exact .inr (.inl ⟨state, rfl⟩)
  | ifTrue condition body =>
      rcases heval : machine.eval stage.settings condition with ⟨_ | _, after⟩
      · exact .inr (.inr ⟨_, _, .ifTrue heval⟩)
      · exact .inl ⟨_, _, .ifTrue heval⟩
  | ifFalse condition body =>
      rcases heval : machine.eval stage.settings condition with ⟨_ | _, after⟩
      · exact .inr (.inr ⟨_, _, .ifFalse heval⟩)
      · exact .inl ⟨_, _, .ifFalse heval⟩

theorem runBlock_append (stage : Stage) (machine : Machine ρ) (first rest : List Statement) :
    runBlock stage machine (first ++ rest) =
      match runBlock stage machine first with
      | (.finished, machine) => runBlock stage machine rest
      | ended => ended := by
  induction first generalizing machine with
  | nil => rw [List.nil_append, runBlock]
  | cons statement first ih =>
      simp only [List.cons_append, runBlock]
      rcases run stage machine statement with ⟨outcome, after⟩
      cases outcome with
      | finished => exact ih after
      | moved => rfl
      | failed error => rfl

-- What a statement leaves due is run in its place.
theorem Step.run (h : Step stage machine statement inner after) :
    Statement.run stage machine statement = runBlock stage after inner := by
  cases h with
  | assign heval => simp [Statement.run, runBlock, heval]
  | clear => simp [Statement.run, runBlock]
  | display hx hy hshape => simp [Statement.run, runBlock, hx, hy, hshape]
  | ifTrue heval | ifFalse heval =>
      simp only [Statement.run, heval]
      split <;> simp [runBlock]

theorem Step.runBlock (h : Step stage machine statement inner after) (rest : List Statement) :
    runBlock stage machine (statement :: rest) = Statement.runBlock stage after (inner ++ rest) := by
  rw [runBlock_append, ← h.run]
  rfl

theorem Fails.runBlock (h : Fails stage machine statement error after) (rest : List Statement) :
    runBlock stage machine (statement :: rest) = (.failed error, after) := by
  cases h <;> simp [Statement.runBlock, Statement.run, *]

theorem runBlock_ifTrue (stage : Stage) (machine : Machine ρ) (condition : Expression)
    (body rest : List Statement) :
    runBlock stage machine (.ifTrue condition body :: rest) =
      match machine.eval stage.settings condition with
      | (.error error, machine) => (.failed (.expression error), machine)
      | (.ok value, machine) => runBlock stage machine (if value ≠ 0 then body ++ rest else rest) := by
  rcases heval : machine.eval stage.settings condition with ⟨error | value, after⟩
  · exact (Fails.ifTrue heval).runBlock rest
  · rw [(Step.ifTrue heval).runBlock rest]
    by_cases hvalue : value = 0 <;> simp [hvalue]

theorem runBlock_ifFalse (stage : Stage) (machine : Machine ρ) (condition : Expression)
    (body rest : List Statement) :
    runBlock stage machine (.ifFalse condition body :: rest) =
      match machine.eval stage.settings condition with
      | (.error error, machine) => (.failed (.expression error), machine)
      | (.ok value, machine) => runBlock stage machine (if value = 0 then body ++ rest else rest) := by
  rcases heval : machine.eval stage.settings condition with ⟨error | value, after⟩
  · exact (Fails.ifFalse heval).runBlock rest
  · rw [(Step.ifFalse heval).runBlock rest]
    by_cases hvalue : value = 0 <;> simp [hvalue]

-- Where a run of a block stops is where the block ends.
def Stops (stage : Stage) (machine : Machine ρ) (block : List Statement) : Prop :=
  ∃ ran before due, Runs stage machine block ran before due ∧
    Ends stage before due (runBlock stage machine block)

theorem Stops.cons (h : ∀ inner after, Step stage machine statement inner after →
    Stops stage after (inner ++ rest)) : Stops stage machine (statement :: rest) := by
  rcases step_cases stage machine statement with ⟨inner, after, hstep⟩ | ⟨state, rfl⟩ | ⟨error, after, hfails⟩
  · obtain ⟨ran, before, due, hruns, hends⟩ := h inner after hstep
    exact ⟨statement :: ran, before, due, .step hstep hruns, hstep.runBlock rest ▸ hends⟩
  · exact ⟨[], machine, .goto state :: rest, .refl, by simpa [runBlock, run] using .moved⟩
  · exact ⟨[], machine, statement :: rest, .refl, hfails.runBlock rest ▸ .failed hfails⟩

-- By the structure of statements: a body is one more block before the same rest.
mutual

theorem stops_cons {rest : List Statement} (h : ∀ machine : Machine ρ, Stops stage machine rest)
    (machine : Machine ρ) (statement : Statement) : Stops stage machine (statement :: rest) := by
  refine .cons fun inner after hstep => ?_
  cases statement with
  | ifTrue condition body | ifFalse condition body =>
      cases hstep
      split
      · exact stops_append h _ body
      · exact h _
  | goto => cases hstep
  | _ => cases hstep; exact h _

theorem stops_append {rest : List Statement} (h : ∀ machine : Machine ρ, Stops stage machine rest)
    (machine : Machine ρ) (block : List Statement) : Stops stage machine (block ++ rest) := by
  cases block with
  | nil => exact h machine
  | cons statement block => exact stops_cons (fun machine => stops_append h machine block) machine statement

end

theorem stops (stage : Stage) (machine : Machine ρ) (block : List Statement) :
    Stops stage machine block := by
  have hnil (machine : Machine ρ) : Stops stage machine [] :=
    ⟨[], machine, [], .refl, by simpa [runBlock] using .finished⟩
  simpa using stops_append hnil machine block

end Statement

-- What a game is asked to do.
inductive Call where
  | tick
  | press (button : Button)

-- What a state does then.
def GameState.blockOf (state : GameState) : Call → List Statement
  | .tick => state.statements
  | .press button => (state.handlers.get? button).getD []

namespace Game

variable {ρ : Type} [RandomSource ρ]

def call (game : Game ρ) : Call → Outcome × Game ρ
  | .tick => game.tick
  | .press button => game.press button

theorem call_of_unknown {game : Game ρ} {error : RuntimeError} (hstate : game.state? = .error error)
    (call : Call) : game.call call = (.failed error, game) := by
  cases call <;> simp [Game.call, tick, press, hstate]

theorem call_of_state {game : Game ρ} {state : GameState} (hstate : game.state? = .ok state)
    (call : Call) : game.call call = game.runBlock (state.blockOf call) := by
  cases call with
  | tick => simp [Game.call, tick, hstate, GameState.blockOf]
  | press button =>
      simp only [Game.call, press, hstate, GameState.blockOf]
      cases state.handlers.get? button with
      | none => simp [runBlock, Statement.runBlock, withMachine]
      | some block => rfl

-- The rest of a block is run if what stands before it finishes, and a body is run in the place of its
-- condition. So a call runs statements one after another up to the first goto or failure: the goto is
-- all that changes the current state, and the failure changes random numbers only. The others change what
-- variables hold and which pixels are on.
theorem goto_ends_call (stage : Stage) (game : Game ρ) (call : Call) :
    (∀ (machine after : Machine ρ) (statement : Statement) (inner : List Statement),
      Statement.Step stage machine statement inner after →
        Statement.Effect stage machine after statement) ∧
    (∀ (machine : Machine ρ) (first rest : List Statement),
      Statement.runBlock stage machine (first ++ rest) =
        match Statement.runBlock stage machine first with
        | (.finished, machine) => Statement.runBlock stage machine rest
        | ended => ended) ∧
    (∀ (machine : Machine ρ) (condition : Expression) (body rest : List Statement),
      Statement.runBlock stage machine (.ifTrue condition body :: rest) =
        match machine.eval stage.settings condition with
        | (.error error, machine) => (.failed (.expression error), machine)
        | (.ok value, machine) => Statement.runBlock stage machine (if value ≠ 0 then body ++ rest else rest)) ∧
    (∀ (machine : Machine ρ) (condition : Expression) (body rest : List Statement),
      Statement.runBlock stage machine (.ifFalse condition body :: rest) =
        match machine.eval stage.settings condition with
        | (.error error, machine) => (.failed (.expression error), machine)
        | (.ok value, machine) => Statement.runBlock stage machine (if value = 0 then body ++ rest else rest)) ∧
    match game.state? with
    | .error error => game.call call = (.failed error, game)
    | .ok state => ∃ ran before due,
        Statement.Runs game.stage game.machine (state.blockOf call) ran before due ∧
        (∀ target, .goto target ∉ ran) ∧
        match game.call call with
        | (.finished, after) => due = [] ∧ after = game.withMachine before ∧
            after.machine.current = game.machine.current
        | (.moved, after) => ∃ target rest, due = .goto target :: rest ∧
            after = game.withMachine (before.moveTo target) ∧ after.machine.current = target
        | (.failed error, after) => after.machine.current = game.machine.current ∧
            ∃ statement rest random, due = statement :: rest ∧
              Statement.Fails game.stage before statement error (before.setRandom random) ∧
              after = game.withMachine (before.setRandom random) := by
  refine ⟨fun _ _ _ _ hstep => hstep.effect, Statement.runBlock_append stage, Statement.runBlock_ifTrue stage,
    Statement.runBlock_ifFalse stage, ?_⟩
  cases hstate : game.state? with
  | error error => exact call_of_unknown hstate call
  | ok state =>
      obtain ⟨ran, before, due, hruns, hends⟩ := Statement.stops game.stage game.machine (state.blockOf call)
      refine ⟨ran, before, due, hruns, hruns.goto_notMem, ?_⟩
      simp only [call_of_state hstate, runBlock]
      generalize Statement.runBlock game.stage game.machine (state.blockOf call) = result at hends ⊢
      cases hends with
      | finished => exact ⟨rfl, rfl, hruns.current⟩
      | moved => exact ⟨_, _, rfl, rfl, rfl⟩
      | @failed statement rest error after hfails =>
          obtain ⟨random, rfl⟩ := hfails.exists_setRandom
          exact ⟨hruns.current, statement, rest, random, rfl, hfails, rfl⟩

end Game

end Handheld
