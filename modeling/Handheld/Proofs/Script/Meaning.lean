import Handheld.Proofs.Script.Writing

namespace Handheld.Script

variable {α β κ : Type} [DecidableEq κ]

-- What a list of entries says last of a key.
def lastOf (entries : List (κ × α)) (key : κ) : Option α := entries.reverse.lookup key

-- A dictionary has the keys of some entries in the order in which they came first, each with what
-- came last.
structure KeepsLast (made : α → β → Prop) (entries : List (κ × α)) (dict : Dict κ β) : Prop where
  keys_eq : dict.keys = (entries.map Prod.fst).eraseDups
  get?_rel : ∀ key, Option.Rel made (lastOf entries key) (dict.get? key)

-- What the items of a list give one after the other, each with those before it known.
def inTurn (gives : List α → α → List β) (earlier : List α) : List α → List β
  | [] => []
  | item :: items => gives earlier item ++ inTurn gives (earlier ++ [item]) items

def ifKnown (key : κ) (entries : List (κ × α)) (redefinition : Redefinition) : List Redefinition :=
  if key ∈ entries.map Prod.fst then [redefinition] else []

namespace Member

def statement? : Member → Option Statement
  | statement found => some found
  | handler _ _ => none

def handler? : Member → Option (Button × List Statement)
  | statement _ => none
  | handler button body => some (button, body)

def redefines (owner : String) (earlier : List Member) : Member → List Redefinition
  | statement _ => []
  | handler button _ => ifKnown button (earlier.filterMap handler?) (.handler owner button)

end Member

namespace Definition

def shape? : Definition → Option (String × Shape)
  | shape name found => some (name, found)
  | state _ _ => none

def state? : Definition → Option (String × List Member)
  | shape _ _ => none
  | state name members => some (name, members)

-- The handlers of a state come before the state itself.
def redefines (earlier : List Definition) : Definition → List Redefinition
  | shape name _ => ifKnown name (earlier.filterMap shape?) (.shape name)
  | state name members => inTurn (Member.redefines name) [] members ++
      ifKnown name (earlier.filterMap state?) (.state name)

end Definition

-- Everything that is defined again in a script.
def redefinitions (definitions : List Definition) : List Redefinition :=
  inTurn Definition.redefines [] definitions

-- A state does what the members of its definition say, and for each button what its last handler says.
structure IsStateOf (members : List Member) (state : GameState) : Prop where
  statements_eq : state.statements = members.filterMap Member.statement?
  get?_handlers : ∀ button,
    state.handlers.get? button = lastOf (members.filterMap Member.handler?) button

-- A program has all states and shapes that are defined in a script, as they are defined last.
structure IsProgramOf (initial : String) (definitions : List Definition) (program : Program) : Prop where
  initial_eq : program.initial = initial
  states : KeepsLast IsStateOf (definitions.filterMap Definition.state?) program.states
  shapes : KeepsLast Eq (definitions.filterMap Definition.shape?) program.shapes

theorem lastOf_concat (entries : List (κ × α)) (key other : κ) (a : α) :
    lastOf (entries ++ [(key, a)]) other = if key = other then some a else lastOf entries other := by
  rw [lastOf, List.reverse_append, List.reverse_singleton, List.singleton_append, List.lookup_cons]
  by_cases h : key = other
  · simp [h]
  · rw [if_neg h, beq_false_of_ne (Ne.symm h), lastOf]

theorem isSome_lastOf {entries : List (κ × α)} {key : κ} :
    (lastOf entries key).isSome ↔ key ∈ entries.map Prod.fst := by
  simp [lastOf, List.lookup_isSome_iff]

theorem eraseDups_concat (keys : List κ) (key : κ) :
    (keys ++ [key]).eraseDups = if key ∈ keys then keys.eraseDups else keys.eraseDups ++ [key] := by
  have hsingle : [key].eraseDups = [key] := rfl
  rw [List.eraseDups_append]
  split <;> simp [List.removeAll, *]

theorem inTurn_concat (gives : List α → α → List β) (earlier items : List α) (item : α) :
    inTurn gives earlier (items ++ [item]) =
      inTurn gives earlier items ++ gives (earlier ++ items) item := by
  induction items generalizing earlier with
  | nil => simp [inTurn]
  | cons first items ih => simp [inTurn, ih]

@[simp] theorem reverse_ifKnown (key : κ) (entries : List (κ × α)) (redefinition : Redefinition) :
    (ifKnown key entries redefinition).reverse = ifKnown key entries redefinition := by
  unfold ifKnown
  split <;> rfl

theorem if_contains_eq_ifKnown {dict : Dict κ β} {key : κ} {entries : List (κ × α)}
    (h : (dict.get? key).isSome = (lastOf entries key).isSome) (redefinition : Redefinition) :
    (if dict.contains key then [redefinition] else []) = ifKnown key entries redefinition := by
  simp only [ifKnown, Dict.contains, h, isSome_lastOf]

namespace KeepsLast

variable {made : α → β → Prop} {entries : List (κ × α)} {dict : Dict κ β}

theorem empty : KeepsLast made [] (Dict.empty : Dict κ β) :=
  ⟨rfl, fun _ => .none⟩

theorem isSome_get? (h : KeepsLast made entries dict) (key : κ) :
    (dict.get? key).isSome = (lastOf entries key).isSome := by
  have hrel := h.get?_rel key
  generalize lastOf entries key = last at hrel
  generalize dict.get? key = found at hrel
  cases hrel <;> rfl

theorem mem_keys_iff (h : KeepsLast made entries dict) {key : κ} :
    key ∈ dict.keys ↔ key ∈ entries.map Prod.fst := by
  rw [h.keys_eq, List.mem_eraseDups]

theorem insert (h : KeepsLast made entries dict) {a : α} {b : β} (hmade : made a b) (key : κ) :
    KeepsLast made (entries ++ [(key, a)]) (dict.insert key b) := by
  refine ⟨?_, fun other => ?_⟩
  · rw [Dict.keys_insert, List.map_append, List.map_singleton, eraseDups_concat, ← h.keys_eq]
    simp only [h.mem_keys_iff]
  · rw [lastOf_concat, Dict.get?_insert]
    split
    · exact .some hmade
    · exact h.get?_rel other

end KeepsLast

namespace IsStateOf

variable {members : List Member} {state : GameState}

theorem empty : IsStateOf [] ⟨[], .empty⟩ := ⟨rfl, fun _ => rfl⟩

theorem addStatement (h : IsStateOf members state) (found : Statement) :
    IsStateOf (members ++ [.statement found]) ⟨state.statements ++ [found], state.handlers⟩ := by
  refine ⟨?_, fun button => ?_⟩
  · simp [h.statements_eq, Member.statement?]
  · simp [h.get?_handlers, Member.handler?, List.filterMap_cons]

theorem addHandler (h : IsStateOf members state) (button : Button) (body : List Statement) :
    IsStateOf (members ++ [.handler button body]) ⟨state.statements, state.handlers.insert button body⟩ := by
  refine ⟨?_, fun other => ?_⟩
  · simp [h.statements_eq, Member.statement?, List.filterMap_cons]
  · have hhandlers : (members ++ [Member.handler button body]).filterMap Member.handler? =
        members.filterMap Member.handler? ++ [(button, body)] := by simp [Member.handler?]
    rw [hhandlers, lastOf_concat, Dict.get?_insert, h.get?_handlers]

end IsStateOf

end Handheld.Script
