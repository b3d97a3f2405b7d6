import Handheld.Proofs.Script.Grammar
import Handheld.Proofs.Script.Meaning
import Handheld.Proofs.Script.Statement

namespace Handheld

theorem Button.label_of_ofLabel? {label : String} {button : Button} (h : ofLabel? label = some button) :
    button.label = label := by
  simpa using List.find?_some h

namespace Script

open ParseTree

variable {tree : ParseTree}

theorem handler_branch {label : Token String} {button : Button} (hkind : label.kind = "handler-name")
    (hbutton : Button.ofLabel? label.lexeme = some button) (lhs : String)
    (opening newline body newline' closing : ParseTree) :
    handler (.branch lhs [.leaf label, opening, newline, body, newline', closing]) =
      block "inhandler-stmts" "inhandler-stmt" body >>= fun statements => pure (button, statements) := by
  simp only [handler, children_branch, textOf_leaf hkind, bind, Except.bind, hbutton]

theorem readsAs_handler (h : Fits tree) (hsymbol : tree.symbol = rule "btn-handler") :
    ReadsAs (fun tokens found => WritesMember tokens (.handler found.1 found.2)) tree (handler tree) := by
  obtain ⟨children, rfl, hmem, hchildren⟩ := h.exists_branch hsymbol rfl
  have hmap := List.mem_singleton.mp hmem
  obtain ⟨label, rest, rfl, hlabel, hbraced⟩ := List.map_eq_cons_iff.mp hmap
  obtain ⟨label, rfl, hlabel, hspelled⟩ := (hchildren label (by simp)).1.exists_leaf hlabel
  obtain ⟨opening, newline, body, newline', closing, rfl, hopening, hbody, hclosing⟩ :=
    exists_braced hbraced fun child hchild => (hchildren child (by simp [hchild])).1
  obtain ⟨button, hbutton⟩ := hspelled.handler hlabel
  obtain ⟨hfits, hsub⟩ := hchildren body (by simp)
  rw [handler_branch hlabel hbutton]
  refine ((readsAs_block (by decide) hfits hbody).mono hsub).bind fun block hblock => .ok ?_
  have hlexeme := (Button.label_of_ofLabel? hbutton).symm
  simpa using WritesMember.handler hlabel hlexeme (.mk hopening hblock hclosing)

theorem onlyChild_branch (tag : String) (child : ParseTree) :
    onlyChild tag (.branch tag [child]) = .ok child := by
  have hexpect : expect tag (.branch tag [child]) = .ok () := expect_eq_ok rfl
  rw [onlyChild, hexpect]
  rfl

theorem addMember_branch (name : String) (reading : Reading GameState) (member : ParseTree) :
    addMember name reading (.branch "instate-stmt" [member]) =
      if member.tag = "btn-handler" then
        handler member >>= fun (button, body) =>
          let redefined := if reading.value.handlers.contains button then [.handler name button] else []
          pure ⟨⟨reading.value.statements, reading.value.handlers.insert button body⟩,
            redefined ++ reading.redefined⟩
      else
        statement member >>= fun found =>
          pure ⟨⟨reading.value.statements ++ [found], reading.value.handlers⟩, reading.redefined⟩ := by
  rw [addMember, onlyChild_branch]
  rfl

-- The first members of a state have been read, after some redefinitions elsewhere.
structure MembersRead (owner : String) (before : List Redefinition) (members : List Member)
    (reading : Reading GameState) : Prop where
  value : IsStateOf members reading.value
  redefined : reading.redefined = (inTurn (Member.redefines owner) [] members).reverse ++ before

theorem yields_addMember {owner : String} {before : List Redefinition} {members : List Member}
    {reading : Reading GameState} (hread : MembersRead owner before members reading) (h : Fits tree)
    (hsymbol : tree.symbol = rule "instate-stmt") :
    Yields tree.tokens (fun reading' => ∃ member, WritesMember tree.tokens member ∧
      MembersRead owner before (members ++ [member]) reading') (addMember owner reading tree) := by
  obtain ⟨children, rfl, hmem, hchildren⟩ := h.exists_branch hsymbol rfl
  rcases List.mem_append.mp hmem with hsimple | hhandler
  · obtain ⟨ruleName, hname, hmap⟩ := exists_rule_of_mem_simpleStatements hsimple
    obtain ⟨child, rfl, hchild⟩ := List.map_eq_singleton_iff.mp hmap
    obtain ⟨hfits, hsub⟩ := hchildren child (by simp)
    have htag : child.tag ≠ "btn-handler" := by
      rw [tag, hchild]
      rintro rfl
      exact absurd hname (by decide)
    rw [addMember_branch, if_neg htag]
    refine ((hfits.lowers.statement hname hchild).mono hsub).bind fun found hfound => .ok ?_
    refine ⟨.statement found, by simpa using WritesMember.statement hfound, ?_, ?_⟩
    · exact hread.value.addStatement found
    · simp [inTurn_concat, Member.redefines, hread.redefined]
  · have hmap := List.mem_singleton.mp hhandler
    obtain ⟨child, rfl, hchild⟩ := List.map_eq_singleton_iff.mp hmap
    obtain ⟨hfits, hsub⟩ := hchildren child (by simp)
    have htag : child.tag = "btn-handler" := congrArg Symbol.name hchild
    rw [addMember_branch, if_pos htag]
    refine ((readsAs_handler hfits hchild).mono hsub).bind fun found hfound => .ok ?_
    obtain ⟨button, body⟩ := found
    refine ⟨.handler button body, by simpa using hfound, ?_, ?_⟩
    · exact hread.value.addHandler button body
    · have hknown := congrArg Option.isSome (hread.value.get?_handlers button)
      simp only [if_contains_eq_ifKnown hknown, hread.redefined]
      simp [inTurn_concat, Member.redefines]

theorem stateDefinition_branch (redefined : List Redefinition) (lhs : String)
    (name opening newline members newline' closing : ParseTree) :
    stateDefinition redefined (.branch lhs [name, opening, newline, members, newline', closing]) =
      textOf "state-name" name >>= fun name => listItems "instate-stmts" members >>= fun members =>
        members.foldlM (addMember name) ⟨⟨[], .empty⟩, redefined⟩ >>= fun reading =>
          pure (name, reading) := rfl

theorem yields_stateDefinition (before : List Redefinition) (h : Fits tree)
    (hsymbol : tree.symbol = rule "state-def") :
    Yields tree.tokens (fun found => ∃ members, WritesDefinition tree.tokens (.state found.1 members) ∧
      MembersRead found.1 before members found.2) (stateDefinition before tree) := by
  obtain ⟨children, rfl, hmem, hchildren⟩ := h.exists_branch hsymbol rfl
  have hmap := List.mem_singleton.mp hmem
  obtain ⟨name, rest, rfl, hname, hbraced⟩ := List.map_eq_cons_iff.mp hmap
  obtain ⟨name, rfl, hname, _⟩ := (hchildren name (by simp)).1.exists_leaf hname
  obtain ⟨opening, newline, members, newline', closing, rfl, hopening, hmembers, hclosing⟩ :=
    exists_braced hbraced fun child hchild => (hchildren child (by simp [hchild])).1
  obtain ⟨hfits, hsub⟩ := hchildren members (by simp)
  rw [stateDefinition_branch, textOf_leaf hname]
  refine (yields_listItems rfl hfits hmembers).bind fun items hitems => ?_
  have hempty : MembersRead name.lexeme before [] ⟨⟨[], .empty⟩, before⟩ := ⟨.empty, rfl⟩
  refine ((yields_foldlM yields_addMember hitems hempty).mono hsub).bind fun reading hreading => .ok ?_
  obtain ⟨made, hlines, hread⟩ := hreading
  exact ⟨made, by simpa using WritesDefinition.state hname (.mk hopening hlines hclosing), hread⟩

theorem shapeDefinition_branch (lhs : String) (name opening newline body closing : ParseTree) :
    shapeDefinition (.branch lhs [name, opening, newline, body, closing]) =
      textOf "shape-name" name >>= fun name => expect "shape" body >>= fun _ =>
        (Shape.read body.lexeme).mapError (.invalidShape name · body.position?) >>= fun shape =>
          pure (name, shape) := rfl

theorem readsAs_shapeDefinition (h : Fits tree) (hsymbol : tree.symbol = rule "shape-def") :
    ReadsAs (fun tokens found => WritesDefinition tokens (.shape found.1 found.2)) tree
      (shapeDefinition tree) := by
  obtain ⟨children, rfl, hmem, hchildren⟩ := h.exists_branch hsymbol rfl
  have hmap := List.mem_singleton.mp hmem
  obtain ⟨name, rest, rfl, hname, hmap⟩ := List.map_eq_cons_iff.mp hmap
  obtain ⟨opening, rest, rfl, hopening, hmap⟩ := List.map_eq_cons_iff.mp hmap
  obtain ⟨newline, rest, rfl, hnewline, hmap⟩ := List.map_eq_cons_iff.mp hmap
  obtain ⟨body, rest, rfl, hbody, hmap⟩ := List.map_eq_cons_iff.mp hmap
  obtain ⟨closing, rfl, hclosing⟩ := List.map_eq_singleton_iff.mp hmap
  obtain ⟨name, rfl, hname, _⟩ := (hchildren name (by simp)).1.exists_leaf hname
  obtain ⟨opening, rfl, hopening, _⟩ := (hchildren opening (by simp)).1.exists_leaf hopening
  obtain ⟨newline, rfl, hnewline, _⟩ := (hchildren newline (by simp)).1.exists_leaf hnewline
  obtain ⟨body, rfl, hbody, hspelled⟩ := (hchildren body (by simp)).1.exists_leaf hbody
  obtain ⟨closing, rfl, hclosing, _⟩ := (hchildren closing (by simp)).1.exists_leaf hclosing
  obtain ⟨shape, hshape⟩ := hspelled.shape hbody
  rw [shapeDefinition_branch, textOf_leaf hname, expect_leaf hbody, lexeme_leaf, hshape]
  exact .ok (.shape (by simp [kinds, hname, hopening, hnewline, hbody, hclosing]) hshape)

theorem addDefinition_shape {definition : ParseTree} (htag : definition.tag = "shape-def")
    (reading : Reading Definitions) :
    addDefinition reading (.branch "top-level-stmt" [definition]) =
      shapeDefinition definition >>= fun (name, shape) =>
        let redefined := if reading.value.shapes.contains name then [.shape name] else []
        pure ⟨⟨reading.value.states, reading.value.shapes.insert name shape⟩,
          redefined ++ reading.redefined⟩ := by
  simp only [addDefinition, onlyChild_branch, bind, Except.bind, htag]

theorem addDefinition_state {definition : ParseTree} (htag : definition.tag = "state-def")
    (reading : Reading Definitions) :
    addDefinition reading (.branch "top-level-stmt" [definition]) =
      stateDefinition reading.redefined definition >>= fun (name, state) =>
        let redefined := if reading.value.states.contains name then [.state name] else []
        pure ⟨⟨reading.value.states.insert name state.value, reading.value.shapes⟩,
          redefined ++ state.redefined⟩ := by
  simp only [addDefinition, onlyChild_branch, bind, Except.bind, htag]

-- The first definitions of a script have been read.
structure DefinitionsRead (definitions : List Definition) (reading : Reading Definitions) : Prop where
  states : KeepsLast IsStateOf (definitions.filterMap Definition.state?) reading.value.states
  shapes : KeepsLast Eq (definitions.filterMap Definition.shape?) reading.value.shapes
  redefined : reading.redefined = (redefinitions definitions).reverse

theorem yields_addDefinition {definitions : List Definition} {reading : Reading Definitions}
    (hread : DefinitionsRead definitions reading) (h : Fits tree)
    (hsymbol : tree.symbol = rule "top-level-stmt") :
    Yields tree.tokens (fun reading' => ∃ definition, WritesDefinition tree.tokens definition ∧
      DefinitionsRead (definitions ++ [definition]) reading') (addDefinition reading tree) := by
  obtain ⟨children, rfl, hmem, hchildren⟩ := h.exists_branch hsymbol rfl
  rcases List.mem_pair.mp hmem with hmap | hmap
  · obtain ⟨child, rfl, hchild⟩ := List.map_eq_singleton_iff.mp hmap
    obtain ⟨hfits, hsub⟩ := hchildren child (by simp)
    rw [addDefinition_shape (congrArg Symbol.name hchild)]
    refine ((readsAs_shapeDefinition hfits hchild).mono hsub).bind fun found hfound => .ok ?_
    obtain ⟨name, shape⟩ := found
    refine ⟨.shape name shape, by simpa using hfound, ?_, ?_, ?_⟩
    · simpa [Definition.state?, List.filterMap_cons] using hread.states
    · simpa [Definition.shape?] using hread.shapes.insert rfl name
    · simp only [if_contains_eq_ifKnown (hread.shapes.isSome_get? name), hread.redefined]
      simp [redefinitions, inTurn_concat, Definition.redefines]
  · obtain ⟨child, rfl, hchild⟩ := List.map_eq_singleton_iff.mp hmap
    obtain ⟨hfits, hsub⟩ := hchildren child (by simp)
    rw [addDefinition_state (congrArg Symbol.name hchild)]
    refine ((yields_stateDefinition _ hfits hchild).mono hsub).bind fun found hfound => .ok ?_
    obtain ⟨name, state⟩ := found
    obtain ⟨members, hwrites, hvalue, hredefined⟩ := hfound
    refine ⟨.state name members, by simpa using hwrites, ?_, ?_, ?_⟩
    · simpa [Definition.state?] using hread.states.insert hvalue name
    · simpa [Definition.shape?, List.filterMap_cons] using hread.shapes
    · dsimp only at hredefined
      simp only [if_contains_eq_ifKnown (hread.states.isSome_get? name), hredefined, hread.redefined]
      simp [redefinitions, inTurn_concat, Definition.redefines]

end Script

theorem Program.ofTree_branch (initial newline definitions newline' : ParseTree) :
    Program.ofTree (.branch Script.start [initial, newline, definitions, newline']) =
      Script.listItems "top-level-stmts" definitions >>= fun definitions =>
        definitions.foldlM Script.addDefinition ⟨⟨.empty, .empty⟩, []⟩ >>= fun reading =>
          Script.textOf "state-name" initial >>= fun initial =>
            pure (⟨reading.value.states, reading.value.shapes, initial⟩, reading.redefined.reverse) :=
  rfl

-- The tree of a script is read as the program its tokens write. Nothing but an expression can be wrong.
theorem Program.yields_ofTree {tokens : List (Token String)} {tree : ParseTree}
    (h : IsDerivation Script.grammar Script.start Script.body tokens tree)
    (hspelled : ∀ token ∈ tokens, Script.Wellspelled token) :
    Script.Yields tokens (fun found => ∃ initial definitions,
      Script.WritesScript tokens initial definitions ∧
        Script.IsProgramOf initial definitions found.1 ∧ found.2 = Script.redefinitions definitions)
      (Program.ofTree tree) := by
  obtain ⟨children, rfl, hforest⟩ := h
  have htokens : children.flatMap ParseTree.tokens = tokens := by
    rw [← ParseTree.filterMap_leavesOfAll, hforest.leaves_eq, List.filterMap_map]
    exact List.filterMap_some
  have hsub : ∀ child ∈ children, child.tokens ⊆ tokens :=
    fun child hchild token htoken => htokens ▸ List.mem_flatMap_of_mem hchild htoken
  have hfits : ∀ child ∈ children, Script.Fits child := fun child hchild =>
    ⟨hforest.follows child hchild, fun token htoken => hspelled token (hsub child hchild htoken)⟩
  obtain ⟨initial, rest, rfl, hinitial, hmap⟩ := List.map_eq_cons_iff.mp hforest.symbols_eq
  obtain ⟨newline, rest, rfl, hnewline, hmap⟩ := List.map_eq_cons_iff.mp hmap
  obtain ⟨inner, rest, rfl, hinner, hmap⟩ := List.map_eq_cons_iff.mp hmap
  obtain ⟨newline', rfl, hnewline'⟩ := List.map_eq_singleton_iff.mp hmap
  obtain ⟨initial, rfl, hinitial, _⟩ := (hfits initial (by simp)).exists_leaf hinitial
  obtain ⟨newline, rfl, hnewline, _⟩ := (hfits newline (by simp)).exists_leaf hnewline
  obtain ⟨newline', rfl, hnewline', _⟩ := (hfits newline' (by simp)).exists_leaf hnewline'
  rw [Program.ofTree_branch]
  refine (Script.yields_listItems rfl (hfits inner (by simp)) hinner).bind fun items hitems => ?_
  have hempty : Script.DefinitionsRead [] ⟨⟨.empty, .empty⟩, []⟩ := ⟨.empty, .empty, rfl⟩
  have hread := Script.yields_foldlM Script.yields_addDefinition hitems hempty
  refine (hread.mono (hsub inner (by simp))).bind fun reading hreading => ?_
  obtain ⟨definitions, hlines, hread⟩ := hreading
  rw [Script.textOf_leaf hinitial]
  refine .ok ⟨initial.lexeme, definitions, ?_, ⟨rfl, hread.states, hread.shapes⟩, ?_⟩
  · have hkinds : kinds [initial, newline] = ["state-name", "newline"] := by
      simp [kinds, hinitial, hnewline]
    rw [← htokens]
    simpa using Script.WritesScript.mk hkinds hlines hnewline'
  · simp [hread.redefined]

end Handheld
