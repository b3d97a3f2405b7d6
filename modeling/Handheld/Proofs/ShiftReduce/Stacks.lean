import Handheld.Proofs.ShiftReduce.Settling
import Handheld.Proofs.ShiftReduce.StackPath
import Handheld.Proofs.ShiftReduce.Yield

namespace Handheld.Tables

open Automaton ParseTree Text

-- A parser at work that keeps its states apart from its trees, both the latest first. The states begin
-- with one that belongs to no tree.
structure Machine where
  states : List Nat
  trees : List ParseTree
  position : Position
  input : List (Except LexicalError (Token String))

inductive MachineStep where
  | next (machine : Machine)
  | done (result : Except ParseError ParseTree)

def Machine.start (input : List (Except LexicalError (Token String))) : Machine :=
  ⟨[0], [], .start, input⟩

-- A missing state stands for the first one.
def top (states : List Nat) : Nat := states.headD 0

variable (tables : Tables)

def machineReduce (machine : Machine) (token : Token String) (rule : Nat) : MachineStep :=
  match tables.production? rule with
  | none => .done (.error (.unexpected token.kind token.position))
  | some production =>
    let count := production.rhs.length
    if machine.trees.length < count then .done (.error (.unexpected token.kind token.position))
    else
      let children := (machine.trees.take count).reverse
      let states := machine.states.drop count
      match tables.goto? (top states) production.lhs with
      | none => .done (.error (.unexpected token.kind token.position))
      | some next =>
        .next ⟨next :: states, .branch production.lhs children :: machine.trees.drop count,
          token.position, machine.input⟩

def machineStep (machine : Machine) : MachineStep :=
  match machine.input with
  | [] => .done (.error (.unexpectedEnd machine.position))
  | .error error :: _ => .done (.error (.lexical error))
  | .ok token :: rest =>
    match tables.action? (top machine.states) token.kind with
    | some (.shift next) =>
      .next ⟨next :: machine.states, .leaf token :: machine.trees, token.position, rest⟩
    | some (.reduce rule) => machineReduce tables machine token rule
    | some .accept => .done (.ok (.branch tables.start machine.trees.reverse))
    | none => .done (.error (.unexpected token.kind token.position))

def runMachine : (fuel : Nat) → Machine → Option (Except ParseError ParseTree)
  | 0, _ => none
  | fuel + 1, machine =>
    match machineStep tables machine with
    | .done result => some result
    | .next machine => runMachine fuel machine

def MachineReaches : Machine → Machine → Prop :=
  Relation.ReflTransGen fun before after => machineStep tables before = .next after

-- The automaton goes from one state to another by a symbol that some of its items wait for.
def Leads (state : Nat) (symbol : Symbol) (next : Nat) : Prop :=
  ∃ items, tables.states[state]? = some items ∧ (∃ item ∈ items, item.next? = some symbol) ∧
    tables.states[next]? = some (target tables.productions items symbol)

-- The states are a path of the automaton from the first one, and the trees are the symbols on it.
inductive Spells : List Nat → List ParseTree → Prop
  | start : Spells [0] []
  | enter {state next : Nat} {states : List Nat} {tree : ParseTree} {trees : List ParseTree} :
      Spells (state :: states) trees → tables.Leads state tree.symbol next →
      Spells (next :: state :: states) (tree :: trees)

-- What a parser relies on when it reduces: the production, its trees on the stack, and the way on from
-- the state that they leave uncovered.
structure CanReduce (machine : Machine) (production : Production) : Prop where
  length_le : production.rhs.length ≤ machine.trees.length
  symbols_eq : (machine.trees.take production.rhs.length).reverse.map symbol = production.rhs
  goto : ∃ next, tables.goto? (top (machine.states.drop production.rhs.length)) production.lhs = some next

structure Sound (machine : Machine) : Prop where
  length_eq : machine.states.length = machine.trees.length + 1
  spells : tables.Spells machine.states machine.trees
  reduces : ∀ terminal rule, tables.action? (top machine.states) terminal = some (.reduce rule) →
    ∃ production, tables.production? rule = some production ∧ tables.CanReduce machine production

-- The two stacks of the pairs of states and trees.
def Parsing.machine (parsing : Parsing) : Machine :=
  ⟨parsing.stack.map (·.1) ++ [0], parsing.stack.map (·.2), parsing.position, parsing.input⟩

variable {tables} {grammar : Grammar} {start : String} {first production : Production} {state : Nat}
  {stack : List (Nat × ParseTree)}

theorem top_states (stack : List (Nat × ParseTree)) : top (stack.map (·.1) ++ [0]) = topState stack := by
  cases stack <;> rfl

theorem top_drop {count : Nat} (hcount : count ≤ stack.length) :
    top (List.drop count (stack.map (·.1) ++ [0])) = topState (stack.drop count) := by
  rw [List.drop_append_of_le_length (by simpa using hcount), ← List.map_drop, top_states]

theorem machineReduce_machine (tables : Tables) (parsing : Parsing) (token : Token String) (rule : Nat) :
    machineReduce tables parsing.machine token rule = match tables.reduce parsing token rule with
      | .next after => .next after.machine
      | .done result => .done result := by
  obtain ⟨stack, position, input⟩ := parsing
  simp only [machineReduce, reduce, Parsing.machine, List.length_map]
  cases tables.production? rule with
  | none => rfl
  | some production =>
      dsimp only
      by_cases hlength : stack.length < production.rhs.length
      · simp [hlength, unexpected]
      · rw [if_neg hlength, if_neg hlength, top_drop (Nat.le_of_not_lt hlength)]
        cases tables.goto? (topState (stack.drop production.rhs.length)) production.lhs with
        | none => rfl
        | some next =>
            simp [List.map_take, List.map_drop,
              List.drop_append_of_le_length, Nat.le_of_not_lt hlength]

-- Pairs or not, a step is the same.
theorem machineStep_machine (parsing : Parsing) :
    machineStep tables parsing.machine = match tables.step parsing with
      | .next after => .next after.machine
      | .done result => .done result := by
  obtain ⟨stack, position, input⟩ := parsing
  rcases input with _ | ⟨error | token, rest⟩
  · rfl
  · rfl
  · have hreduce := machineReduce_machine tables ⟨stack, position, .ok token :: rest⟩ token
    simp only [machineStep, step, Parsing.machine, top_states] at hreduce ⊢
    cases tables.action? (topState stack) token.kind with
    | none => rfl
    | some action =>
        cases action with
        | shift next => rfl
        | accept => rfl
        | reduce rule => exact hreduce rule

theorem runMachine_machine (fuel : Nat) (parsing : Parsing) :
    runMachine tables fuel parsing.machine = tables.run fuel parsing := by
  induction fuel generalizing parsing with
  | zero => rfl
  | succ fuel ih =>
      rw [runMachine, run, machineStep_machine]
      cases tables.step parsing with
      | done result => rfl
      | next after => exact ih after

theorem exists_of_machineReaches {parsing : Parsing} {machine : Machine}
    (h : tables.MachineReaches parsing.machine machine) :
    ∃ after, tables.Reaches parsing after ∧ after.machine = machine := by
  induction h with
  | refl => exact ⟨parsing, .refl, rfl⟩
  | tail _ hstep ih =>
      obtain ⟨middle, hreaches, rfl⟩ := ih
      rw [machineStep_machine] at hstep
      split at hstep
      · rename_i after hafter
        exact ⟨after, hreaches.tail hafter, MachineStep.next.inj hstep⟩
      · simp at hstep

theorem machineReaches_of_reaches {parsing after : Parsing} (h : tables.Reaches parsing after) :
    tables.MachineReaches parsing.machine after.machine :=
  Relation.ReflTransGen.lift Parsing.machine
    (fun before after (hstep : tables.step before = .next after) =>
      show machineStep tables before.machine = _ by rw [machineStep_machine, hstep]) _ _ h

namespace Built

variable (hbuilt : Built grammar start tables)

include hbuilt

theorem leads_of_enter? {symbol : Symbol} {next : Nat}
    (henter : tables.enter? state symbol = some next) : tables.Leads state symbol next := by
  obtain ⟨_, items, hitems, hsymbol, _⟩ := hbuilt.enter?_eq_some_iff.mp henter
  exact ⟨items, hitems, mem_nextSymbols_iff.mp hsymbol, hbuilt.states_of_enter? hitems henter⟩

theorem spells_of_path (hpath : tables.Path stack) :
    tables.Spells (stack.map (·.1) ++ [0]) (stack.map (·.2)) := by
  induction hpath with
  | nil => exact .start
  | @cons state tree stack _ henter ih =>
      have hleads := hbuilt.leads_of_enter? henter
      cases stack with
      | nil => exact .enter ih hleads
      | cons _ _ => exact .enter ih hleads

-- A production that is about to be read in a state is rule 0, or an item there waits for it.
theorem exists_waits (hfirst : tables.production? 0 = some first) (hpath : tables.Path stack)
    (hitem : tables.HasItem (topState stack) (.initial production)) :
    production = first ∨
      ∃ item, tables.HasItem (topState stack) item ∧ item.next? = some (.nonterminal production.lhs) := by
  have hhead : tables.productions.head? = some first := by rwa [List.head?_eq_getElem?]
  -- The induction is on how an item came into the state, so it has to be about items of any cursor.
  suffices h : ∀ item, tables.HasItem (topState stack) item → item.cursor = 0 →
      item.production = first ∨ ∃ waiting, tables.HasItem (topState stack) waiting ∧
        waiting.next? = some (.nonterminal item.production.lhs) from h _ hitem rfl
  intro item hitem
  cases hpath with
  | nil =>
      refine hbuilt.hasItem_zero_induction (P := fun item => item.cursor = 0 → item.production = first ∨
        ∃ waiting, tables.HasItem 0 waiting ∧ waiting.next? = some (.nonterminal item.production.lhs))
        hhead (fun _ => .inl rfl) ?_ hitem
      exact fun waiting _ hwaiting _ hnext _ _ => .inr ⟨waiting, hwaiting, hnext⟩
  | cons _ henter =>
      refine hbuilt.hasItem_induction (P := fun item => item.cursor = 0 → item.production = first ∨
        ∃ waiting, tables.HasItem _ waiting ∧ waiting.next? = some (.nonterminal item.production.lhs))
        henter ?_ ?_ hitem
      · intro before _ hnext hcursor
        rw [Item.cursor_advanced hnext] at hcursor
        omega
      · exact fun waiting _ hwaiting _ hnext _ _ => .inr ⟨waiting, hwaiting, hnext⟩

-- No tree on a path is an end marker: nothing is read after one.
theorem isEndMarker_of_path (hpath : tables.Path stack) :
    ∀ tree ∈ stack.map (·.2), tree.symbol.isEndMarker = false := by
  induction hpath with
  | nil => simp
  | cons _ henter ih =>
      obtain ⟨hmarker, _⟩ := hbuilt.enter?_eq_some_iff.mp henter
      exact List.forall_mem_cons.mpr ⟨hmarker, ih⟩

-- Rule 0 is never read to its end, as its end marker is not.
theorem ne_first_of_isFinished (hfirst : tables.production? 0 = some first)
    (hmarker : .terminal endMarker ∈ first.rhs) (hpath : tables.Path stack) {item : Item}
    (hitem : tables.HasItem (topState stack) item) (hfinished : item.isFinished) :
    item.production ≠ first := by
  have hhead : tables.productions.head? = some first := by rwa [List.head?_eq_getElem?]
  have hcursor : item.cursor = item.production.rhs.length := by simpa [Item.isFinished] using hfinished
  obtain ⟨_, hsymbols, _⟩ := hbuilt.hasItem_drop hhead hpath hitem
  rw [hcursor, List.take_length, treesOf] at hsymbols
  rintro rfl
  rw [← hsymbols] at hmarker
  obtain ⟨tree, htree, hsymbol⟩ := List.mem_map.mp hmarker
  have hstack : tree ∈ stack.map (·.2) := by
    rw [List.mem_reverse, List.map_take] at htree
    exact List.mem_of_mem_take htree
  have hread := hbuilt.isEndMarker_of_path hpath tree hstack
  simp [hsymbol, Symbol.isEndMarker] at hread

-- A finished item has its trees on the stack, and the state below them waits for its nonterminal.
theorem canReduce_of_isFinished (hfirst : tables.production? 0 = some first)
    (hmarker : .terminal endMarker ∈ first.rhs) (hpath : tables.Path stack) {item : Item}
    (hitem : tables.HasItem (topState stack) item) (hfinished : item.isFinished)
    (position : Position) (input : List (Except LexicalError (Token String))) :
    tables.CanReduce (Parsing.machine ⟨stack, position, input⟩) item.production := by
  have hhead : tables.productions.head? = some first := by rwa [List.head?_eq_getElem?]
  have hcursor : item.cursor = item.production.rhs.length := by simpa [Item.isFinished] using hfinished
  obtain ⟨hlength, hsymbols, hinitial⟩ := hbuilt.hasItem_drop hhead hpath hitem
  rw [hcursor] at hlength hinitial
  rw [hcursor, List.take_length, treesOf] at hsymbols
  have hne := hbuilt.ne_first_of_isFinished hfirst hmarker hpath hitem hfinished
  obtain ⟨waiting, hwaiting, hnext⟩ :=
    (hbuilt.exists_waits hfirst (hpath.drop _) hinitial).resolve_left hne
  obtain ⟨next, henter⟩ := hbuilt.exists_enter?_iff.mpr ⟨rfl, waiting, hwaiting, hnext⟩
  refine ⟨by simpa [Parsing.machine] using hlength, ?_, next, ?_⟩
  · simpa [Parsing.machine, List.map_take] using hsymbols
  · rw [Parsing.machine, top_drop hlength]
    exact henter

theorem sound_machine (hfirst : tables.production? 0 = some first)
    (hmarker : .terminal endMarker ∈ first.rhs) {parsing : Parsing} (hpath : tables.Path parsing.stack) :
    tables.Sound parsing.machine := by
  refine ⟨by simp [Parsing.machine], hbuilt.spells_of_path hpath, fun terminal rule haction => ?_⟩
  rw [Parsing.machine, top_states] at haction
  obtain ⟨item, hitem, hfinished, hproduction⟩ := hbuilt.production?_of_reduce haction
  exact ⟨item.production, hproduction,
    hbuilt.canReduce_of_isFinished hfirst hmarker hpath hitem hfinished _ _⟩

end Built

-- Where all that a reduction relies on is there, only an empty cell is an error of the syntax.
theorem Sound.action?_eq_none {machine : Machine} (h : tables.Sound machine) {kind : String}
    {position : Position} (hdone : machineStep tables machine = .done (.error (.unexpected kind position))) :
    ∃ token rest, machine.input = .ok token :: rest ∧ kind = token.kind ∧ position = token.position ∧
      tables.action? (top machine.states) token.kind = none := by
  obtain ⟨states, trees, place, input⟩ := machine
  rcases input with _ | ⟨error | token, rest⟩
  · simp [machineStep] at hdone
  · simp [machineStep] at hdone
  · refine ⟨token, rest, rfl, ?_⟩
    simp only [machineStep] at hdone
    cases haction : tables.action? (top states) token.kind with
    | none => simp_all
    | some action =>
        cases action with
        | shift next => simp [haction] at hdone
        | accept => simp [haction] at hdone
        | reduce rule =>
            obtain ⟨production, hproduction, hlength, _, next, hgoto⟩ := h.reduces token.kind rule haction
            have hle : ¬ trees.length < production.rhs.length := Nat.not_lt.mpr hlength
            simp [haction, machineReduce, hproduction, hle, hgoto] at hdone

-- At each step of a parser the states and the trees belong together, and with an end marker in rule 0 a
-- reduction finds all that it relies on. So the error of the syntax is only ever that of an empty cell.
theorem machine_sound (hbuild : build grammar start = .ok tables)
    (hfirst : tables.production? 0 = some first) (hmarker : .terminal endMarker ∈ first.rhs)
    (input : List (Except LexicalError (Token String))) :
    (∀ machine, tables.MachineReaches (.start input) machine → tables.Sound machine) ∧
    (∀ kind position, tables.parse input = .error (.unexpected kind position) →
      ∃ machine token rest, tables.MachineReaches (.start input) machine ∧
        machine.input = .ok token :: rest ∧ kind = token.kind ∧ position = token.position ∧
        tables.action? (top machine.states) token.kind = none) ∧
    ∀ fuel, runMachine tables fuel (.start input) = tables.run fuel ⟨[], .start, input⟩ := by
  have hbuilt := built_of_build hbuild
  have hstart : Machine.start input = Parsing.machine ⟨[], .start, input⟩ := rfl
  have hsound (machine : Machine) (hreach : tables.MachineReaches (.start input) machine) :
      tables.Sound machine := by
    obtain ⟨after, hreaches, rfl⟩ := exists_of_machineReaches (hstart ▸ hreach)
    obtain ⟨_, _, _, hread⟩ := HasRead.nil.of_reaches hbuilt hreaches
    exact hbuilt.sound_machine hfirst hmarker hread.path
  refine ⟨hsound, fun kind position hparse => ?_, fun fuel => hstart ▸ runMachine_machine fuel _⟩
  obtain ⟨last, hreaches, hdone⟩ := exists_reaches_of_parse_ne hparse (by simp)
  have hreach : tables.MachineReaches (.start input) last.machine := machineReaches_of_reaches hreaches
  have hmachine : machineStep tables last.machine = .done (.error (.unexpected kind position)) := by
    rw [machineStep_machine, hdone]
  obtain ⟨token, rest, hinput⟩ := (hsound _ hreach).action?_eq_none hmachine
  exact ⟨last.machine, token, rest, hreach, hinput⟩

-- In the grammar whose start goes on after its end marker, a second mark meets an empty cell.
def twoMarks : List (Except LexicalError (Token String)) :=
  [⟨"mark", "|", .start⟩, ⟨"mark", "|", .start⟩].map .ok

def failsAtMark (tables : Tables) : Bool :=
  match tables.parse twoMarks with
  | .error (.unexpected kind position) => kind = "mark" ∧ position = .start
  | _ => false

theorem machine_sound_cut : ∃ tables first, build cut "start" = .ok tables ∧
    tables.production? 0 = some first ∧ .terminal endMarker ∈ first.rhs ∧
      (∀ machine, tables.MachineReaches (.start twoMarks) machine → tables.Sound machine) ∧
        ∃ machine, tables.MachineReaches (.start twoMarks) machine ∧
          tables.action? (top machine.states) "mark" = none := by
  have hfails : (build cut "start").toOption.any failsAtMark := by decide +kernel
  obtain ⟨tables, hbuild, hfails⟩ := Option.any_eq_true .. |>.mp hfails
  have hbuild : build cut "start" = .ok tables := by
    cases h : build cut "start" <;> simp_all [Except.toOption]
  have hfirst : tables.productions.head? =
      some ⟨"start", [.nonterminal "front", .terminal endMarker, .terminal "mark"]⟩ :=
    Grammar.head?_productions (built_of_build hbuild).productions_eq rfl
  rw [List.head?_eq_getElem?] at hfirst
  have hparse : tables.parse twoMarks = .error (.unexpected "mark" .start) := by
    unfold failsAtMark at hfails
    split at hfails <;> simp_all
  obtain ⟨hsound, herror, _⟩ := machine_sound hbuild hfirst (by simp) twoMarks
  obtain ⟨machine, token, _, hreaches, _, hkind, _, haction⟩ := herror _ _ hparse
  exact ⟨tables, _, hbuild, hfirst, by simp, hsound, machine, hreaches, hkind ▸ haction⟩

end Handheld.Tables
