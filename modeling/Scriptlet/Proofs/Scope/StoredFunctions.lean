import Scriptlet.Evaluation.Evaluate
import Scriptlet.Proofs.Tree.WellFormed

namespace Scriptlet

variable {p : Function → Prop}

/-- The value is no function, or one that satisfies `p`. -/
def Value.FunctionHas (p : Function → Prop) (v : Value) : Prop := ∀ f, v = .function f → p f

theorem Value.FunctionHas.of_ne {v : Value} (h : ∀ f, v ≠ .function f) : v.FunctionHas p :=
  fun f hf => absurd hf (h f)

namespace Store

/-- Every function that is bound in some scope satisfies `p`. -/
def EachFunction (p : Function → Prop) (s : Store) : Prop :=
  ∀ scope name v, s.valueIn? scope name = some v → v.FunctionHas p

theorem eachFunction_empty : EachFunction p empty := by
  intro scope name v h
  simp [valueIn?, empty] at h

variable {s : Store}

theorem EachFunction.get? (h : s.EachFunction p) {env : Env} {name : String} {v : Value}
    (hv : s.get? env name = some v) : v.FunctionHas p := by
  rw [get?_eq] at hv
  obtain ⟨scope, -, hscope⟩ := Option.bind_eq_some_iff.1 hv
  exact h scope name v hscope

theorem EachFunction.bindIn (h : s.EachFunction p) (scope : Nat) (name : String) {v : Value}
    (hv : v.FunctionHas p) : (s.bindIn scope name v).EachFunction p := by
  intro other x w hw
  rw [valueIn?_bindIn] at hw
  split at hw
  · cases hw
    exact hv
  · exact h other x w hw

theorem EachFunction.define (h : s.EachFunction p) (env : Env) (name : String) {v : Value}
    (hv : v.FunctionHas p) : (s.define env name v).EachFunction p :=
  h.bindIn env.own name hv

theorem EachFunction.defineAll (h : s.EachFunction p) (env : Env) (names : List Token)
    {vs : List Value} (hvs : ∀ v ∈ vs, v.FunctionHas p) : (s.defineAll env names vs).EachFunction p := by
  induction names generalizing s vs with
  | nil => exact h
  | cons t names ih =>
    cases vs with
    | nil => exact h
    | cons v vs =>
      obtain ⟨hv, hmore⟩ := List.forall_mem_cons.1 hvs
      exact ih (h.define env t.lexeme hv) hmore

/-- A new scope binds nothing. -/
theorem valueIn?_openScope (s : Store) (outer : List Nat) (scope : Nat) (name : String) :
    (s.openScope outer).2.valueIn? scope name = s.valueIn? scope name := by
  simp only [openScope, valueIn?, Array.getElem?_push]
  split
  · next h => simp [h]
  · rfl

theorem EachFunction.openScope (h : s.EachFunction p) (outer : List Nat) :
    (s.openScope outer).2.EachFunction p := by
  intro scope name v hv
  rw [valueIn?_openScope] at hv
  exact h scope name v hv

theorem EachFunction.newFunction (h : s.EachFunction p) (name : Token) (params : List Token)
    (body : List Stmt) (closure : Env) : (s.newFunction name params body closure).2.EachFunction p :=
  h

end Store

/-- The body has no broken statement and no operator without a meaning. -/
def Function.WellFormed (f : Function) : Prop := ∀ s ∈ f.body, s.WellFormed

/-- The value is no function, or a well-formed one. -/
abbrev Value.Sound (v : Value) : Prop := v.FunctionHas Function.WellFormed

theorem Value.sound_ofLiteral (l : Literal) : (ofLiteral l).Sound := by
  intro f hf
  cases l <;> cases hf

theorem Value.sound_number (x : Float) : (number x).Sound := .of_ne fun _ => Value.noConfusion

theorem Value.sound_nil : nil.Sound := .of_ne fun _ => Value.noConfusion

namespace Flow

def Sound : Flow → Prop
  | .normal => True
  | .value v | .ret v => v.Sound

theorem Sound.outward {flow : Flow} (h : flow.Sound) : flow.outward.Sound := by
  cases flow with
  | ret v => exact h
  | normal => trivial
  | value v => trivial

theorem Sound.result {flow : Flow} (h : flow.Sound) : flow.result.Sound := by
  cases flow with
  | ret v => exact h
  | normal => exact Value.sound_nil
  | value v => exact Value.sound_nil

end Flow

end Scriptlet
