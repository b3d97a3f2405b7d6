import Handheld.Proofs.Script.Writing

namespace Handheld.Script

variable {α : Type} {writes : List (Token String) → α → Prop}

-- Some tokens write something, and where they begin a text nothing else can be read at its start.
structure Settled (writes : List (Token String) → α → Prop) (tokens : List (Token String)) (a : α) :
    Prop where
  holds : writes tokens a
  eq_of_append_eq {tokens' rest rest' : List (Token String)} {a' : α} : writes tokens' a' →
    tokens ++ rest = tokens' ++ rest' → tokens = tokens' ∧ a = a'

-- Some tokens can begin a line inside a block.
def Opens (tokens : List (Token String)) : Prop :=
  ∃ first rest, tokens = first :: rest ∧ first.kind ≠ "right-brace"

theorem Opens.append {tokens : List (Token String)} (h : Opens tokens) (rest : List (Token String)) :
    Opens (tokens ++ rest) := by
  obtain ⟨first, more, rfl, hkind⟩ := h
  exact ⟨first, more ++ rest, rfl, hkind⟩

theorem Lines.opens {inner : List (Token String)} {items : List α} (h : Lines writes inner items)
    (hopens : ∀ tokens a, writes tokens a → Opens tokens) : Opens inner := by
  cases h with
  | only hitem => exact hopens _ _ hitem
  | more hitem => exact (hopens _ _ hitem).append _

-- After a line there is either another one or the end of the list, and what follows tells which.
theorem Lines.settled {inner inner' rest rest' : List (Token String)} {items items' : List α}
    {newline newline' : Token String} (hopens : ∀ tokens a, writes tokens a → Opens tokens)
    (h : Lines (Settled writes) inner items) (h' : Lines writes inner' items')
    (hrest : ¬ Opens rest) (hrest' : ¬ Opens rest')
    (heq : inner ++ newline :: rest = inner' ++ newline' :: rest') : inner = inner' ∧ items = items' := by
  have hsettled : ∀ tokens a, Settled writes tokens a → Opens tokens :=
    fun tokens a h => hopens tokens a h.holds
  induction h generalizing inner' items' with
  | only hitem =>
      cases h' with
      | only hitem' =>
          obtain ⟨rfl, rfl⟩ := hitem.eq_of_append_eq hitem' heq
          exact ⟨rfl, rfl⟩
      | more hitem' _ hmore' =>
          rw [List.append_assoc] at heq
          obtain ⟨rfl, rfl⟩ := hitem.eq_of_append_eq hitem' heq
          obtain ⟨_, rfl⟩ : _ ∧ rest = _ := by simpa using heq
          exact absurd ((hmore'.opens hopens).append _) hrest
  | more hitem _ hmore ih =>
      rw [List.append_assoc] at heq
      cases h' with
      | only hitem' =>
          obtain ⟨rfl, rfl⟩ := hitem.eq_of_append_eq hitem' heq
          obtain ⟨_, rfl⟩ : _ ∧ _ = rest' := by simpa using heq
          exact absurd ((hmore.opens hsettled).append _) hrest'
      | more hitem' _ hmore' =>
          rw [List.append_assoc] at heq
          obtain ⟨rfl, rfl⟩ := hitem.eq_of_append_eq hitem' heq
          obtain ⟨rfl, hmoreEq⟩ : _ = _ ∧ _ = _ := by simpa using heq
          obtain ⟨rfl, rfl⟩ := ih hmore' hmoreEq
          exact ⟨rfl, rfl⟩

theorem not_opens_cons {closing : Token String} (h : closing.kind = "right-brace")
    (rest : List (Token String)) : ¬ Opens (closing :: rest) := by
  rintro ⟨first, more, heq, hkind⟩
  obtain ⟨rfl, _⟩ := by simpa using heq
  exact hkind h

theorem Braced.settled {block block' rest rest' : List (Token String)} {items items' : List α}
    (hopens : ∀ tokens a, writes tokens a → Opens tokens) (h : Braced (Lines (Settled writes)) block items)
    (h' : Braced (Lines writes) block' items') (heq : block ++ rest = block' ++ rest') :
    block = block' ∧ items = items' := by
  obtain ⟨_, hlines, hclosing⟩ := h
  obtain ⟨_, hlines', hclosing'⟩ := h'
  obtain ⟨rfl, rfl, hinnerEq⟩ := by simpa using heq
  simp only [kinds, List.map_cons, List.map_nil, List.cons.injEq, and_true] at hclosing hclosing'
  have hend := not_opens_cons hclosing.2 rest
  have hend' := not_opens_cons hclosing'.2 rest'
  obtain ⟨rfl, rfl⟩ := hlines.settled hopens hlines' hend hend' hinnerEq
  obtain ⟨rfl, rfl, _⟩ := by simpa using hinnerEq
  exact ⟨rfl, rfl⟩

theorem WritesExpression.settled {tokens : List (Token String)} {value : Expression}
    (h : WritesExpression tokens value) : Settled WritesExpression tokens value := by
  refine ⟨h, fun {tokens' rest rest' value'} h' heq => ?_⟩
  cases h with
  | single hkind hread =>
      cases h' with
      | single _ hread' => simp_all
      | random hkinds => simp_all [kinds]
  | random hkinds hread hread' =>
      cases h' with
      | single => simp_all [kinds]
      | random => simp_all

-- The words with which statements begin.
def openingKinds : List String := ["variable", "clear-screen", "display-shape", "goto", "if"]

theorem WritesStatement.exists_first {tokens : List (Token String)} {statement : Statement}
    (h : WritesStatement tokens statement) :
    ∃ first rest, tokens = first :: rest ∧ first.kind ∈ openingKinds := by
  cases h with
  | assign hkinds | display hkinds | goto hkinds | ifFalse hkinds =>
      refine ⟨_, _, rfl, ?_⟩
      simp_all [kinds, openingKinds]
  | clear hkind | ifTrue hkind =>
      refine ⟨_, _, rfl, ?_⟩
      simp [hkind, openingKinds]

theorem WritesStatement.opens (tokens : List (Token String)) (statement : Statement)
    (h : WritesStatement tokens statement) : Opens tokens := by
  obtain ⟨first, rest, rfl, hmem⟩ := h.exists_first
  refine ⟨first, rest, rfl, ?_⟩
  rintro hkind
  exact absurd (hkind ▸ hmem) (by decide)

theorem WritesExpression.ne_not {tokens rest rest' : List (Token String)} {value : Expression}
    {negation : Token String} (h : WritesExpression tokens value) (hnegation : negation.kind = "not") :
    tokens ++ rest ≠ negation :: rest' := by
  cases h with
  | single hkind =>
      rintro heq
      simp_all
  | random hkinds =>
      rintro heq
      simp_all [kinds]

section Statements

variable {tokens' rest rest' : List (Token String)} {statement' : Statement}

theorem eq_of_assign {name sign : Token String} {right : List (Token String)} {value : Expression}
    (hkinds : kinds [name, sign] = ["variable", "assignment-op"]) (hright : WritesExpression right value)
    (h' : WritesStatement tokens' statement') (heq : [name, sign] ++ right ++ rest = tokens' ++ rest') :
    [name, sign] ++ right = tokens' ∧ .assign name.lexeme value = statement' := by
  cases h' with
  | assign _ hright' =>
      obtain ⟨rfl, rfl, hrightEq⟩ := by simpa using heq
      obtain ⟨rfl, rfl⟩ := hright.settled.eq_of_append_eq hright' hrightEq
      exact ⟨rfl, rfl⟩
  | _ => simp_all [kinds]

theorem eq_of_display {word shape sign opening comma closing : Token String}
    {left right : List (Token String)} {x y : Expression}
    (hkinds : kinds [word, shape, sign, opening] =
      ["display-shape", "shape-name", "coordinate-op", "left-paren"])
    (hleft : WritesExpression left x) (hright : WritesExpression right y)
    (h' : WritesStatement tokens' statement')
    (heq : [word, shape, sign, opening] ++ left ++ [comma] ++ right ++ [closing] ++ rest = tokens' ++ rest') :
    [word, shape, sign, opening] ++ left ++ [comma] ++ right ++ [closing] = tokens' ∧
      .display shape.lexeme x y = statement' := by
  cases h' with
  | display _ hleft' _ hright' =>
      obtain ⟨rfl, rfl, rfl, rfl, hleftEq⟩ := by simpa using heq
      obtain ⟨rfl, rfl⟩ := hleft.settled.eq_of_append_eq hleft' hleftEq
      obtain ⟨rfl, hrightEq⟩ := by simpa using hleftEq
      obtain ⟨rfl, rfl⟩ := hright.settled.eq_of_append_eq hright' hrightEq
      obtain ⟨rfl, _⟩ := by simpa using hrightEq
      exact ⟨rfl, rfl⟩
  | _ => simp_all [kinds]

theorem eq_of_ifTrue {word : Token String} {asked block : List (Token String)} {condition : Expression}
    {body : List Statement} (hword : word.kind = "if") (hasked : WritesExpression asked condition)
    (hblock : Braced (Lines (Settled WritesStatement)) block body)
    (h' : WritesStatement tokens' statement') (heq : [word] ++ asked ++ block ++ rest = tokens' ++ rest') :
    [word] ++ asked ++ block = tokens' ∧ .ifTrue condition body = statement' := by
  cases h' with
  | ifTrue _ hasked' hblock' =>
      obtain ⟨rfl, haskedEq⟩ := by simpa using heq
      obtain ⟨rfl, rfl⟩ := hasked.settled.eq_of_append_eq hasked' haskedEq
      obtain ⟨rfl, rfl⟩ := hblock.settled WritesStatement.opens hblock' (List.append_cancel_left haskedEq)
      exact ⟨rfl, rfl⟩
  | ifFalse hkinds' =>
      obtain ⟨rfl, haskedEq⟩ := by simpa using heq
      exact absurd haskedEq (hasked.ne_not (by simp_all [kinds]))
  | _ => simp_all [kinds]

theorem eq_of_ifFalse {word negation : Token String} {asked block : List (Token String)}
    {condition : Expression} {body : List Statement} (hkinds : kinds [word, negation] = ["if", "not"])
    (hasked : WritesExpression asked condition) (hblock : Braced (Lines (Settled WritesStatement)) block body)
    (h' : WritesStatement tokens' statement')
    (heq : [word, negation] ++ asked ++ block ++ rest = tokens' ++ rest') :
    [word, negation] ++ asked ++ block = tokens' ∧ .ifFalse condition body = statement' := by
  cases h' with
  | ifFalse _ hasked' hblock' =>
      obtain ⟨rfl, rfl, haskedEq⟩ := by simpa using heq
      obtain ⟨rfl, rfl⟩ := hasked.settled.eq_of_append_eq hasked' haskedEq
      obtain ⟨rfl, rfl⟩ := hblock.settled WritesStatement.opens hblock' (List.append_cancel_left haskedEq)
      exact ⟨rfl, rfl⟩
  | ifTrue _ hasked' =>
      obtain ⟨rfl, haskedEq⟩ := by simpa using heq
      exact absurd haskedEq.symm (hasked'.ne_not (by simp_all [kinds]))
  | _ => simp_all [kinds]

end Statements

mutual

theorem WritesStatement.settled {tokens : List (Token String)} {statement : Statement} :
    WritesStatement tokens statement → Settled WritesStatement tokens statement
  | .assign hkinds hright => ⟨.assign hkinds hright, eq_of_assign hkinds hright⟩
  | .clear hkind => ⟨.clear hkind, fun h' heq => by cases h' <;> simp_all [kinds]⟩
  | .display hkinds hleft hcomma hright hclosing =>
    ⟨.display hkinds hleft hcomma hright hclosing, eq_of_display hkinds hleft hright⟩
  | .goto hkinds => ⟨.goto hkinds, fun h' heq => by cases h' <;> simp_all [kinds]⟩
  | .ifTrue hword hasked (.mk hopening hlines hclosing) =>
    ⟨.ifTrue hword hasked (.mk hopening hlines hclosing),
      eq_of_ifTrue hword hasked (.mk hopening hlines.settledStatements hclosing)⟩
  | .ifFalse hkinds hasked (.mk hopening hlines hclosing) =>
    ⟨.ifFalse hkinds hasked (.mk hopening hlines hclosing),
      eq_of_ifFalse hkinds hasked (.mk hopening hlines.settledStatements hclosing)⟩

theorem Lines.settledStatements {inner : List (Token String)} {items : List Statement} :
    Lines WritesStatement inner items → Lines (Settled WritesStatement) inner items
  | .only hitem => .only hitem.settled
  | .more hitem hnewline hmore => .more hitem.settled hnewline hmore.settledStatements

end

theorem WritesMember.opens (tokens : List (Token String)) (member : Member)
    (h : WritesMember tokens member) : Opens tokens := by
  cases h with
  | statement hstatement => exact WritesStatement.opens _ _ hstatement
  | handler hkind => exact ⟨_, _, rfl, by simp [hkind]⟩

theorem WritesMember.settled {tokens : List (Token String)} {member : Member}
    (h : WritesMember tokens member) : Settled WritesMember tokens member := by
  refine ⟨h, fun {tokens' rest rest' member'} h' heq => ?_⟩
  cases h with
  | statement hstatement =>
      cases h' with
      | statement hstatement' =>
          obtain ⟨rfl, rfl⟩ := hstatement.settled.eq_of_append_eq hstatement' heq
          exact ⟨rfl, rfl⟩
      | handler hkind' =>
          obtain ⟨first, more, rfl, hmem⟩ := hstatement.exists_first
          obtain ⟨rfl, _⟩ := by simpa using heq
          exact absurd (hkind' ▸ hmem) (by decide)
  | handler hkind hlabel hblock =>
      cases h' with
      | statement hstatement' =>
          obtain ⟨first, more, rfl, hmem⟩ := hstatement'.exists_first
          obtain ⟨rfl, _⟩ := by simpa using heq
          exact absurd (hkind ▸ hmem) (by decide)
      | @handler _ button' _ _ _ hlabel' hblock' =>
          obtain ⟨rfl, hblockEq⟩ := by simpa using heq
          have hsettled := hblock.imp fun _ _ => Lines.settledStatements
          obtain ⟨rfl, rfl⟩ := hsettled.settled WritesStatement.opens hblock' hblockEq
          have hbutton := congrArg Button.ofLabel? (hlabel.symm.trans hlabel')
          simp only [Button.ofLabel?_label, Option.some.injEq] at hbutton
          exact ⟨rfl, by rw [hbutton]⟩

theorem WritesDefinition.opens (tokens : List (Token String)) (definition : Definition)
    (h : WritesDefinition tokens definition) : Opens tokens := by
  cases h with
  | shape hkinds => exact ⟨_, _, rfl, by simp_all [kinds]⟩
  | state hkind => exact ⟨_, _, rfl, by simp [hkind]⟩

theorem WritesDefinition.settled {tokens : List (Token String)} {definition : Definition}
    (h : WritesDefinition tokens definition) : Settled WritesDefinition tokens definition := by
  refine ⟨h, fun {tokens' rest rest' definition'} h' heq => ?_⟩
  cases h with
  | shape hkinds hread =>
      cases h' with
      | shape => simp_all
      | state => simp_all [kinds]
  | state hkind hblock =>
      cases h' with
      | shape => simp_all [kinds]
      | state _ hblock' =>
          obtain ⟨rfl, hblockEq⟩ := by simpa using heq
          have hsettled := hblock.imp fun _ _ hlines => hlines.imp fun _ _ => WritesMember.settled
          obtain ⟨rfl, rfl⟩ := hsettled.settled WritesMember.opens hblock' hblockEq
          exact ⟨rfl, rfl⟩

-- Some tokens write one script only.
theorem WritesScript.unique {tokens : List (Token String)} {initial initial' : String}
    {definitions definitions' : List Definition} (h : WritesScript tokens initial definitions)
    (h' : WritesScript tokens initial' definitions') : initial = initial' ∧ definitions = definitions' := by
  have hend : ¬ Opens [] := by
    rintro ⟨_, _, heq, _⟩
    simp at heq
  generalize hsame : tokens = tokens' at h'
  cases h with
  | @mk _ _ last inner _ _ hlines =>
      cases h' with
      | @mk _ _ last' inner' _ _ hlines' =>
          obtain ⟨rfl, _, rfl, rfl⟩ := by simpa using hsame
          have hsettled := hlines.imp fun _ _ => WritesDefinition.settled
          have hinner : inner ++ [last] = inner ++ [last] := rfl
          obtain ⟨_, rfl⟩ := hsettled.settled WritesDefinition.opens hlines' hend hend hinner
          exact ⟨rfl, rfl⟩

end Handheld.Script
