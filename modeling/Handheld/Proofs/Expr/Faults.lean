import Handheld.Expression
import Handheld.Proofs.Data.Except

namespace Handheld

-- The faults that show when an expression is read; the others show when it is evaluated.
def ExprFault.IsOfText (fault : ExprFault) : Prop := fault = .malformed ∨ fault = .overflow

namespace Expr

variable {fault : ExprFault} {tokens more : List (Token Kind)}

-- Some literal of a row of tokens does not become a value.
def HasUnread (tokens : List (Token Kind)) : Prop :=
  ∃ token ∈ tokens, token.kind = .literal ∧ Value.ofDigits? token.lexeme.toList = none

-- What can be wrong with a row of tokens. Only a literal overflows.
def IsFaultOf (tokens : List (Token Kind)) (fault : ExprFault) : Prop :=
  fault = .malformed ∨ fault = .overflow ∧ HasUnread tokens

theorem IsFaultOf.mono (h : IsFaultOf tokens fault) (hsubset : tokens ⊆ more) : IsFaultOf more fault := by
  rcases h with hmalformed | ⟨hoverflow, token, htoken, hunread⟩
  · exact .inl hmalformed
  · exact .inr ⟨hoverflow, token, hsubset htoken, hunread⟩

theorem IsFaultOf.isOfText (h : IsFaultOf tokens fault) : fault.IsOfText := h.imp_right And.left

theorem isFaultOf_of_wellFormed {α : Type} {result : Option α}
    (h : Infix.wellFormed result = .error fault) : IsFaultOf tokens fault := by
  cases result with
  | none => exact .inl (Except.error.inj h).symm
  | some a => simp [Infix.wellFormed] at h

theorem isFaultOf_of_step {reader : Infix} {token : Token Kind} (h : reader.step token = .error fault) :
    IsFaultOf [token] fault := by
  unfold Infix.step at h
  split at h
  · simp at h
  · exact isFaultOf_of_wellFormed (map_eq_error_iff.mp h)
  · split at h <;> exact isFaultOf_of_wellFormed h
  · rename_i hkind
    split at h
    · simp at h
    · rename_i hnone
      exact .inr ⟨(Except.error.inj h).symm, token, List.mem_singleton_self token, hkind, hnone⟩
  · simp at h
  · simp at h
  · exact .inl (Except.error.inj h).symm

theorem isFaultOf_of_ofInfix (h : ofInfix tokens = .error fault) : IsFaultOf tokens fault := by
  rcases bind_eq_error_iff.mp h with hfold | ⟨reader, _, hfinish⟩
  · obtain ⟨before, token, after, _, rfl, _, hstep⟩ := exists_of_foldlM_eq_error hfold
    exact (isFaultOf_of_step hstep).mono (by simp)
  · exact isFaultOf_of_wellFormed hfinish

theorem isFaultOf_of_ofBounds (h : ofBounds tokens = .error fault) : IsFaultOf tokens fault := by
  unfold ofBounds at h
  rcases bind_eq_error_iff.mp h with hatom | ⟨count, _, h⟩
  · exact isFaultOf_of_wellFormed hatom
  · dsimp only at h
    split at h
    · rcases bind_eq_error_iff.mp h with hthrow | ⟨_, hthrow, _⟩
      · exact .inl (Except.error.inj hthrow).symm
      · simp [throw, throwThe, MonadExceptOf.throw] at hthrow
    · rcases bind_eq_error_iff.mp h with hfirst | ⟨_, _, h⟩
      · exact (isFaultOf_of_ofInfix hfirst).mono (List.take_subset count tokens)
      · rcases bind_eq_error_iff.mp h with hsecond | ⟨_, _, h⟩
        · exact (isFaultOf_of_ofInfix hsecond).mono (List.drop_subset count tokens)
        · simp [pure, Except.pure] at h

theorem isFaultOf_of_ofTokens (h : ofTokens tokens = .error fault) : IsFaultOf tokens fault := by
  unfold ofTokens at h
  split at h
  · exact isFaultOf_of_ofInfix h
  · split at h
    · exact (isFaultOf_of_ofBounds h).mono (List.subset_cons_self _ _)
    · exact isFaultOf_of_ofInfix h

-- A body that cannot be cut into tokens is malformed.
theorem fault_of_ofBody {body : List Char} (h : ofBody body = .error fault) : fault = .malformed ∨
    ∃ tokens, lexer.tokens (.ofList body) = .ok tokens ∧ IsFaultOf tokens fault := by
  unfold ofBody at h
  split at h
  · rename_i tokens htokens
    exact .inr ⟨tokens, htokens, isFaultOf_of_ofTokens h⟩
  · exact .inl (Except.error.inj h).symm

end Expr

-- The error of an expression quotes the text that was read.
theorem Expression.eq_of_read_error {text : String} {error : ExprError}
    (h : Expression.read text = .error error) : error.expression = text ∧ error.fault.IsOfText := by
  unfold Expression.read at h
  split at h
  · simp at h
  · rename_i fault hfault
    obtain rfl := Except.error.inj h
    refine ⟨rfl, ?_⟩
    unfold readFault at hfault
    split at hfault
    · rcases Expr.fault_of_ofBody hfault with hmalformed | ⟨_, _, htokens⟩
      · exact .inl hmalformed
      · exact htokens.isOfText
    · exact .inl (Except.error.inj hfault).symm

end Handheld
