import Handheld.Proofs.Grammar.Derivation
import Handheld.Script.Program

namespace Handheld.Script

variable {α : Type}

-- What is written in a script, told by its tokens alone and without a tree of them.

-- One item a line.
inductive Lines (writes : List (Token String) → α → Prop) : List (Token String) → List α → Prop
  | only {tokens : List (Token String)} {item : α} : writes tokens item → Lines writes tokens [item]
  | more {tokens rest : List (Token String)} {newline : Token String} {item : α} {items : List α} :
      writes tokens item → newline.kind = "newline" → Lines writes rest items →
      Lines writes (tokens ++ newline :: rest) (item :: items)

-- Lines of their own between two braces.
inductive Braced (writes : List (Token String) → α → Prop) : List (Token String) → α → Prop
  | mk {opening newline newline' closing : Token String} {inner : List (Token String)} {a : α} :
      kinds [opening, newline] = ["left-brace", "newline"] → writes inner a →
      kinds [newline', closing] = ["newline", "right-brace"] →
      Braced writes ([opening, newline] ++ inner ++ [newline', closing]) a

inductive WritesExpression : List (Token String) → Expression → Prop
  | single {text : Token String} {value : Expression} : text.kind = "single-expression" →
      Expression.read text.lexeme = .ok value → WritesExpression [text] value
  | random {word text text' : Token String} {first second : Expression} :
      kinds [word, text, text'] = ["rand", "single-expression", "single-expression"] →
      Expression.read text.lexeme = .ok first → Expression.read text'.lexeme = .ok second →
      WritesExpression [word, text, text'] (.random first second)

inductive WritesStatement : List (Token String) → Statement → Prop
  | assign {name sign : Token String} {right : List (Token String)} {value : Expression} :
      kinds [name, sign] = ["variable", "assignment-op"] → WritesExpression right value →
      WritesStatement ([name, sign] ++ right) (.assign name.lexeme value)
  | clear {word : Token String} : word.kind = "clear-screen" → WritesStatement [word] .clear
  | display {word shape sign opening comma closing : Token String} {left right : List (Token String)}
      {x y : Expression} :
      kinds [word, shape, sign, opening] =
        ["display-shape", "shape-name", "coordinate-op", "left-paren"] →
      WritesExpression left x → comma.kind = "comma" → WritesExpression right y →
      closing.kind = "right-paren" →
      WritesStatement ([word, shape, sign, opening] ++ left ++ [comma] ++ right ++ [closing])
        (.display shape.lexeme x y)
  | goto {word state : Token String} : kinds [word, state] = ["goto", "state-name"] →
      WritesStatement [word, state] (.goto state.lexeme)
  | ifTrue {word : Token String} {asked block : List (Token String)} {condition : Expression}
      {body : List Statement} : word.kind = "if" → WritesExpression asked condition →
      Braced (Lines WritesStatement) block body →
      WritesStatement ([word] ++ asked ++ block) (.ifTrue condition body)
  | ifFalse {word negation : Token String} {asked block : List (Token String)} {condition : Expression}
      {body : List Statement} : kinds [word, negation] = ["if", "not"] →
      WritesExpression asked condition → Braced (Lines WritesStatement) block body →
      WritesStatement ([word, negation] ++ asked ++ block) (.ifFalse condition body)

-- What stands in the definition of a state.
inductive Member where
  | statement (statement : Statement)
  | handler (button : Button) (body : List Statement)

inductive WritesMember : List (Token String) → Member → Prop
  | statement {tokens : List (Token String)} {statement : Statement} :
      WritesStatement tokens statement → WritesMember tokens (.statement statement)
  | handler {label : Token String} {button : Button} {block : List (Token String)}
      {body : List Statement} : label.kind = "handler-name" → label.lexeme = button.label →
      Braced (Lines WritesStatement) block body →
      WritesMember ([label] ++ block) (.handler button body)

inductive Definition where
  | shape (name : String) (shape : Shape)
  | state (name : String) (members : List Member)

inductive WritesDefinition : List (Token String) → Definition → Prop
  | shape {name opening newline pixels closing : Token String} {shape : Shape} :
      kinds [name, opening, newline, pixels, closing] =
        ["shape-name", "left-brace", "newline", "shape", "right-brace"] →
      Shape.read pixels.lexeme = .ok shape →
      WritesDefinition [name, opening, newline, pixels, closing] (.shape name.lexeme shape)
  | state {name : Token String} {block : List (Token String)} {members : List Member} :
      name.kind = "state-name" → Braced (Lines WritesMember) block members →
      WritesDefinition ([name] ++ block) (.state name.lexeme members)

-- A script names a state, the initial one, and goes on with definitions.
inductive WritesScript : List (Token String) → String → List Definition → Prop
  | mk {initial newline newline' : Token String} {inner : List (Token String)}
      {definitions : List Definition} : kinds [initial, newline] = ["state-name", "newline"] →
      Lines WritesDefinition inner definitions → newline'.kind = "newline" →
      WritesScript ([initial, newline] ++ inner ++ [newline']) initial.lexeme definitions

theorem Lines.imp {writes made : List (Token String) → α → Prop} {inner : List (Token String)}
    {items : List α} (h : Lines writes inner items) (himp : ∀ tokens a, writes tokens a → made tokens a) :
    Lines made inner items := by
  induction h with
  | only hitem => exact .only (himp _ _ hitem)
  | more hitem hnewline _ ih => exact .more (himp _ _ hitem) hnewline ih

theorem Braced.imp {writes made : List (Token String) → α → Prop} {block : List (Token String)} {a : α}
    (h : Braced writes block a) (himp : ∀ tokens a, writes tokens a → made tokens a) :
    Braced made block a := by
  obtain ⟨hopening, hinner, hclosing⟩ := h
  exact .mk hopening (himp _ _ hinner) hclosing

-- The grammar lets lists grow at their end.
theorem Lines.concat {writes : List (Token String) → α → Prop} {before tokens : List (Token String)}
    {newline : Token String} {items : List α} {item : α} (h : Lines writes before items)
    (hnewline : newline.kind = "newline") (hitem : writes tokens item) :
    Lines writes (before ++ newline :: tokens) (items ++ [item]) := by
  induction h with
  | only hfirst => exact .more hfirst hnewline (.only hitem)
  | more hfirst hnewline' _ ih =>
      rw [List.append_assoc, List.cons_append, List.cons_append]
      exact .more hfirst hnewline' ih

end Handheld.Script
