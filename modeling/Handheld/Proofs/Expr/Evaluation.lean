import Handheld.Expression
import Handheld.Proofs.Data.Except
import Handheld.Proofs.Expr.Arithmetic
import Mathlib.Data.List.TakeWhile

namespace Handheld

namespace RandomSource

variable {ρ : Type} [RandomSource ρ]

-- What becomes of a source that is asked for values between some bounds.
inductive Serves : ρ → List (Int × Int) → ρ → Prop
  | nil {source : ρ} : Serves source [] source
  | cons {source after : ρ} {low high : Value} {requests : List (Int × Int)} :
      Serves (draw low high source).2 requests after →
      Serves source ((low.toInt, high.toInt) :: requests) after

namespace Serves

variable {source middle after after' : ρ} {requests others : List (Int × Int)}

theorem append (h : Serves source requests middle) (h' : Serves middle others after) :
    Serves source (requests ++ others) after := by
  induction h with
  | nil => exact h'
  | cons _ ih => exact .cons (ih h')

theorem unique (h : Serves source requests after) (h' : Serves source requests after') :
    after = after' := by
  induction h with
  | nil => cases h'; rfl
  | @cons source _ low high requests _ ih =>
      generalize hasked : (low.toInt, high.toInt) :: requests = asked at h'
      cases h' with
      | nil => simp at hasked
      | cons hrest =>
          simp only [List.cons.injEq, Prod.mk.injEq, Int64.toInt_inj] at hasked
          obtain ⟨⟨rfl, rfl⟩, rfl⟩ := hasked
          exact ih hrest

end Serves

-- A source that also keeps a record of what it is asked for.
structure Recorded (ρ : Type) where
  source : ρ
  requests : List (Value × Value)

instance : RandomSource (Recorded ρ) where
  draw low high recorded :=
    let (answer, source) := draw low high recorded.source
    (answer, ⟨source, recorded.requests ++ [(low, high)]⟩)

def Recorded.start (source : ρ) : Recorded ρ := ⟨source, []⟩

def Recorded.bounds (recorded : Recorded ρ) : List (Int × Int) :=
  recorded.requests.map fun (low, high) => (low.toInt, high.toInt)

theorem Serves.of_recorded {recorded after : Recorded ρ} {requests : List (Int × Int)}
    (h : Serves recorded requests after) :
    Serves recorded.source requests after.source ∧ after.bounds = recorded.bounds ++ requests := by
  induction h with
  | nil => exact ⟨.nil, by simp⟩
  | cons _ ih => exact ⟨.cons ih.1, by simpa [Recorded.bounds, draw] using ih.2⟩

end RandomSource

namespace Expr

open Value RandomSource

-- A node of an expression as an evaluation in unbounded integers comes by it, with the results of its
-- operands and with what the scope or the source of random values says there.
inductive Visit where
  | given (value : Value)
  | const (name : String) (value? : Option Value)
  | unary (op : UnaryOp) (operand : Int)
  | binary (op : BinaryOp) (left right : Int)
  | random (first second : Int) (answer : Value)

namespace Visit

def result : Visit → Int
  | given value => value.toInt
  | const _ value? => (value?.getD 0).toInt
  | unary op operand => op.exact operand
  | binary op left right => op.exact left right
  | random _ _ answer => answer.toInt

-- What is wrong at a node: a constant without a value, a divisor 0, or a result that is no value.
def fault? : Visit → Option ExprFault
  | given _ | random _ _ _ | const _ (some _) => none
  | const name none => some (.unknownConstant name)
  | unary op operand => if InRange (op.exact operand) then none else some .overflow
  | binary op left right => (op.error? left right).map ofArithmetic

-- The bounds of a random value, the smaller one first.
def request? : Visit → Option (Int × Int)
  | random first second _ => some (min first second, max first second)
  | _ => none

end Visit

-- The visits of an evaluation, in post-order: the root comes last.
structure Trace where
  earlier : List Visit
  root : Visit

namespace Trace

def visits (trace : Trace) : List Visit := trace.earlier ++ [trace.root]

def result (trace : Trace) : Int := trace.root.result

@[simp] theorem visits_mk (earlier : List Visit) (root : Visit) :
    visits ⟨earlier, root⟩ = earlier ++ [root] := rfl

@[simp] theorem result_mk (earlier : List Visit) (root : Visit) : result ⟨earlier, root⟩ = root.result := rfl

end Trace

variable {ρ : Type}

theorem run_bind {α β : Type} (x : Eval ρ α) (f : α → Eval ρ β) (source : ρ) :
    (x >>= f).run source = match x.run source with
      | (.ok a, source) => (f a).run source
      | (.error fault, source) => (.error fault, source) := by
  simp only [ExceptT.run, bind, ExceptT.bind, StateT.bind, ExceptT.mk]
  rcases x source with ⟨_ | _, after⟩ <;> rfl

variable [RandomSource ρ]

-- The evaluation in unbounded integers. It stops at no fault; what comes after one has no meaning.
def trace (scope : Scope) : Expr → ρ → Trace × ρ
  | literal value, source => (⟨[], .given value⟩, source)
  | var name, source => (⟨[], .given (scope.var name)⟩, source)
  | const name, source => (⟨[], .const name (scope.const? name)⟩, source)
  | unary op operand, source =>
    let (a, source) := operand.trace scope source
    (⟨a.visits, .unary op a.result⟩, source)
  | binary op left right, source =>
    let (a, source) := left.trace scope source
    let (b, source) := right.trace scope source
    (⟨a.visits ++ b.visits, .binary op a.result b.result⟩, source)
  | random first second, source =>
    let (a, source) := first.trace scope source
    let (b, source) := second.trace scope source
    let low := Int64.ofInt (min a.result b.result)
    let high := Int64.ofInt (max a.result b.result)
    let (answer, source) := RandomSource.draw low high source
    (⟨a.visits ++ b.visits, .random a.result b.result answer⟩, source)

-- How an evaluation ends that goes along some visits up to their first fault: with the result of the
-- last one or with that fault, and with a source that has served the requests on the way.
inductive Ends (source : ρ) (visits : List Visit) (result : Int) (last : ρ) :
    Except ExprFault Value × ρ → Prop
  | ok {value : Value} : (∀ visit ∈ visits, visit.fault? = none) → value.toInt = result →
      Serves source (visits.filterMap Visit.request?) last → Ends source visits result last (.ok value, last)
  | error {before rest : List Visit} {visit : Visit} {fault : ExprFault} {after : ρ} :
      visits = before ++ visit :: rest → (∀ earlier ∈ before, earlier.fault? = none) →
      visit.fault? = some fault → Serves source (before.filterMap Visit.request?) after →
      Ends source visits result last (.error fault, after)

variable {source middle last : ρ} {visits others : List Visit} {visit : Visit} {result result' : Int}

-- What comes after a fault is not reached, and what comes after a sound part goes on from there.
theorem Ends.bind {x : Eval ρ Value} {f : Value → Eval ρ Value}
    (h : Ends source visits result middle (x.run source))
    (h' : ∀ value : Value, value.toInt = result → Ends middle others result' last ((f value).run middle)) :
    Ends source (visits ++ others) result' last ((x >>= f).run source) := by
  rw [run_bind]
  generalize x.run source = first at h ⊢
  cases h with
  | @error before rest visit fault after hvisits hsound hfault hserves =>
      have hsplit : visits ++ others = before ++ visit :: (rest ++ others) := by
        rw [hvisits, List.append_assoc, List.cons_append]
      exact .error hsplit hsound hfault hserves
  | @ok value hsound hvalue hserves =>
      have hrest := h' value hvalue
      dsimp only
      generalize (f value).run middle = second at hrest ⊢
      cases hrest with
      | ok hothers hresult hlast =>
          refine .ok ?_ hresult (List.filterMap_append ▸ hserves.append hlast)
          intro other hother
          exact (List.mem_append.mp hother).elim (hsound other) (hothers other)
      | error hvisits hothers hfault hlast =>
          refine .error (by rw [hvisits, List.append_assoc]) ?_ hfault
            (List.filterMap_append ▸ hserves.append hlast)
          intro other hother
          exact (List.mem_append.mp hother).elim (hsound other) (hothers other)

theorem Ends.pure {value : Value} (hfault : visit.fault? = none) (hvalue : value.toInt = visit.result)
    (hrequest : visit.request? = none) :
    Ends source [visit] visit.result source ((Pure.pure value : Eval ρ Value).run source) :=
  .ok (by simpa using hfault) hvalue (by simpa [hrequest] using .nil)

theorem Ends.throw {fault : ExprFault} (hfault : visit.fault? = some fault) :
    Ends source [visit] result last ((MonadExcept.throw fault : Eval ρ Value).run source) :=
  .error (List.nil_append _).symm (by simp) hfault .nil

theorem Ends.draw {a b : Int} {first second : Value} (hfirst : first.toInt = a) (hsecond : second.toInt = b) :
    let (answer, after) := RandomSource.draw (Int64.ofInt (min a b)) (Int64.ofInt (max a b)) source
    Ends source [.random a b answer] answer.toInt after ((Expr.draw first second).run source) := by
  have hserves (low high : Value) :
      Serves source [(low.toInt, high.toInt)] (RandomSource.draw low high source).2 := .cons .nil
  subst hfirst hsecond
  by_cases hle : first ≤ second
  · have hle' : first.toInt ≤ second.toInt := Int64.le_iff_toInt_le.mp hle
    simp only [Expr.draw, hle, if_true, Int.min_eq_left hle', Int.max_eq_right hle', Int64.ofInt_toInt]
    refine .ok (by simp [Visit.fault?]) rfl ?_
    simpa [Visit.request?, Int.min_eq_left hle', Int.max_eq_right hle'] using hserves first second
  · have hle' : second.toInt ≤ first.toInt := by
      rw [Int64.le_iff_toInt_le] at hle
      omega
    simp only [Expr.draw, hle, if_false, Int.min_eq_right hle', Int.max_eq_left hle', Int64.ofInt_toInt]
    refine .ok (by simp [Visit.fault?]) rfl ?_
    simpa [Visit.request?, Int.min_eq_right hle', Int.max_eq_left hle'] using hserves second first

theorem ends_eval (scope : Scope) (expr : Expr) (source : ρ) :
    Ends source (expr.trace scope source).1.visits (expr.trace scope source).1.result
      (expr.trace scope source).2 ((expr.eval scope).run source) := by
  induction expr generalizing source with
  | literal value => exact .pure rfl rfl rfl
  | var name => exact .pure rfl rfl rfl
  | const name =>
      simp only [eval, trace, Trace.visits_mk, Trace.result_mk, List.nil_append]
      cases scope.const? name with
      | none => exact .throw rfl
      | some value => exact .pure rfl rfl rfl
  | unary op operand ih =>
      refine (ih source).bind fun value hvalue => ?_
      rw [UnaryOp.apply_eq, hvalue]
      by_cases hrange : InRange (op.exact (operand.trace scope source).1.result)
      · rw [if_pos hrange]
        exact .pure (if_pos hrange) (toInt_ofInt hrange) rfl
      · rw [if_neg hrange]
        exact .throw (if_neg hrange)
  | binary op left right ihl ihr =>
      simp only [eval, trace, Trace.visits_mk, Trace.result_mk, List.append_assoc]
      refine (ihl source).bind fun a ha => (ihr _).bind fun b hb => ?_
      rw [BinaryOp.apply_eq, ha, hb]
      cases herror : op.error? (left.trace scope source).1.result
          (right.trace scope (left.trace scope source).2).1.result with
      | none =>
          have hrange := BinaryOp.inRange_of_error? herror
          exact .pure (by simp [Visit.fault?, herror]) (toInt_ofInt hrange) rfl
      | some error => exact .throw (by simp [Visit.fault?, herror])
  | random first second ihf ihs =>
      simp only [eval, trace, Trace.visits_mk, Trace.result_mk, List.append_assoc]
      exact (ihf source).bind fun a ha => (ihs _).bind fun b hb => .draw ha hb

namespace Ends

variable {after : ρ} {ended : Except ExprFault Value}

theorem eq_ok_iff (h : Ends source visits result last (ended, after)) (value : Value) :
    ended = .ok value ↔ (∀ visit ∈ visits, visit.fault? = none) ∧ value.toInt = result := by
  cases h with
  | ok hsound hvalue _ =>
      rw [Except.ok.injEq, ← Int64.toInt_inj, hvalue]
      exact ⟨fun h => ⟨hsound, h.symm⟩, fun h => h.2.symm⟩
  | @error _ _ visit _ _ hvisits _ hfault _ =>
      simp only [reduceCtorEq, false_iff]
      rintro ⟨hsound, _⟩
      have hnone := hsound visit (by simp [hvisits])
      simp [hfault] at hnone

theorem eq_error_iff (h : Ends source visits result last (ended, after)) (fault : ExprFault) :
    ended = .error fault ↔ visits.findSome? Visit.fault? = some fault := by
  cases h with
  | ok hsound _ _ =>
      rw [List.findSome?_eq_none_iff.mpr hsound]
      simp
  | error hvisits hsound hfault _ =>
      rw [List.findSome?_eq_some_iff.mpr ⟨_, _, _, hvisits, hfault, hsound⟩]
      simp

theorem ended_unique {σ : Type} [RandomSource σ] {source' last' after' : σ}
    {ended' : Except ExprFault Value} (h : Ends source visits result last (ended, after))
    (h' : Ends source' visits result last' (ended', after')) : ended = ended' := by
  cases ended' with
  | ok value => exact (h.eq_ok_iff value).mpr ((h'.eq_ok_iff value).mp rfl)
  | error fault => exact (h.eq_error_iff fault).mpr ((h'.eq_error_iff fault).mp rfl)

theorem serves (h : Ends source visits result last (ended, after)) :
    Serves source ((visits.takeWhile (·.fault?.isNone)).filterMap Visit.request?) after := by
  cases h with
  | ok hsound _ hserves =>
      have hall : visits.takeWhile (·.fault?.isNone) = visits := by
        rw [List.takeWhile_eq_self_iff]
        intro visit hvisit
        simp [hsound visit hvisit]
      rwa [hall]
  | error hvisits hsound hfault hserves =>
      rw [hvisits, List.takeWhile_append_of_pos fun visit hvisit => by simp [hsound visit hvisit]]
      simpa [hfault] using hserves

end Ends

-- What a source records makes no difference to what it answers.
theorem trace_recorded (scope : Scope) (expr : Expr) (recorded : Recorded ρ) :
    (expr.trace scope recorded).1 = (expr.trace scope recorded.source).1 ∧
      (expr.trace scope recorded).2.source = (expr.trace scope recorded.source).2 := by
  induction expr generalizing recorded with
  | literal | var | const => exact ⟨rfl, rfl⟩
  | unary op operand ih => simp [trace, ih]
  | binary op left right ihl ihr => simp [trace, ihl, ihr]
  | random first second ihf ihs => simp [trace, ihf, ihs, RandomSource.draw]

end Expr

namespace Expression

open RandomSource

variable {ρ : Type} [RandomSource ρ]

theorem run_eval (expression : Expression) (scope : Scope) (source : ρ) :
    (expression.eval scope).run source =
      let (ended, after) := (expression.root.eval scope).run source
      (ended.mapError fun fault => ⟨fault, expression.text⟩, after) := rfl

-- An expression is evaluated as in unbounded integers if every constant in it has a value, no divisor is
-- 0 and every result is a value. Else the error is that of the first node in post-order where this is not
-- so. Random values are asked for at the nodes before it, and there in the order of the nodes.
theorem eval_exact (expression : Expression) (scope : Scope) (source : ρ) :
    let trace := (expression.root.trace scope source).1
    ∃ ended recorded,
      (expression.eval scope).run source = (ended, recorded.source) ∧
      (expression.eval scope).run (Recorded.start source) = (ended, recorded) ∧
      (∀ value, ended = .ok value ↔
        (∀ visit ∈ trace.visits, visit.fault? = none) ∧ value.toInt = trace.result) ∧
      (∀ error, ended = .error error ↔
        error.expression = expression.text ∧
          trace.visits.findSome? Expr.Visit.fault? = some error.fault) ∧
      recorded.bounds =
        (trace.visits.takeWhile (·.fault?.isNone)).filterMap Expr.Visit.request? := by
  have hplain := Expr.ends_eval scope expression.root source
  have hrecorded := Expr.ends_eval scope expression.root (Recorded.start source)
  rw [(Expr.trace_recorded scope expression.root _).1] at hrecorded
  simp only [run_eval]
  generalize (expression.root.eval scope).run source = plain at hplain ⊢
  generalize (expression.root.eval scope).run (Recorded.start source) = run at hrecorded ⊢
  obtain ⟨ended, after⟩ := plain
  obtain ⟨ended', recorded⟩ := run
  obtain rfl : ended' = ended := hrecorded.ended_unique hplain
  obtain ⟨hserves, hbounds⟩ := hrecorded.serves.of_recorded
  obtain rfl : recorded.source = after := hserves.unique hplain.serves
  refine ⟨_, recorded, rfl, rfl, ?_, ?_, hbounds⟩
  · intro value
    rw [mapError_eq_ok_iff, hplain.eq_ok_iff]
  · intro error
    simp only [mapError_eq_error_iff, hplain.eq_error_iff]
    constructor
    · rintro ⟨fault, hfault, rfl⟩
      exact ⟨rfl, hfault⟩
    · rintro ⟨htext, hfault⟩
      exact ⟨error.fault, hfault, by rw [← htext]⟩

end Expression

end Handheld
