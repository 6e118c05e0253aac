import Scriptlet.Evaluation.Evaluate
import Scriptlet.Proofs.Evaluation.OperatorFault

namespace Scriptlet

/-- The same values, but for functions, which are related by `F`. -/
inductive Value.Related (F : Function → Function → Prop) : Value → Value → Prop where
  | nil : Related F .nil .nil
  | bool (b : Bool) : Related F (.bool b) (.bool b)
  | number (x : Float) : Related F (.number x) (.number x)
  | string (s : String) : Related F (.string s) (.string s)
  | function {f f' : Function} : F f f' → Related F (.function f) (.function f')

inductive Flow.Related (F : Function → Function → Prop) : Flow → Flow → Prop where
  | normal : Related F .normal .normal
  | value {v v' : Value} : v.Related F v' → Related F (.value v) (.value v')
  | ret {v v' : Value} : v.Related F v' → Related F (.ret v) (.ret v')

namespace Value.Related

variable {F G : Function → Function → Prop} {v v' w w' : Value}

theorem mono (hFG : ∀ f f', F f f' → G f f') (h : v.Related F v') : v.Related G v' := by
  cases h with
  | nil => exact .nil
  | bool b => exact .bool b
  | number x => exact .number x
  | string s => exact .string s
  | function hf => exact .function (hFG _ _ hf)

theorem flip (h : v.Related F v') : v'.Related (fun f' f => F f f') v := by
  cases h with
  | nil => exact .nil
  | bool b => exact .bool b
  | number x => exact .number x
  | string s => exact .string s
  | function hf => exact .function hf

theorem of_ne (h : ∀ f, v ≠ .function f) : v.Related F v := by
  cases v with
  | nil => exact .nil
  | bool b => exact .bool b
  | number x => exact .number x
  | string s => exact .string s
  | function f => exact absurd rfl (h f)

theorem ofLiteral (l : Literal) : (Value.ofLiteral l).Related F (Value.ofLiteral l) :=
  of_ne fun f hf => by cases l <;> cases hf

theorem truthy_eq (h : v.Related F v') : v.truthy = v'.truthy := by
  cases h <;> rfl

theorem number?_eq (h : v.Related F v') : v.number? = v'.number? := by
  cases h <;> rfl

theorem text_eq (hname : ∀ f f', F f f' → f.name = f'.name) (h : v.Related F v') :
    v.text = v'.text := by
  cases h with
  | function hf => simp only [Value.text, hname _ _ hf]
  | _ => rfl

/-- Related values are equal to related values, if functions are told apart alike. -/
theorem beq_eq (hidentity : ∀ f f' g g', F f f' → F g g' →
      (f.identity = g.identity ↔ f'.identity = g'.identity))
    (hv : v.Related F v') (hw : w.Related F w') : (v == w) = (v' == w') := by
  cases hv with
  | function hf =>
    cases hw with
    | function hg =>
      have hiff := hidentity _ _ _ _ hf hg
      exact Bool.eq_iff_iff.2 (by simpa [BEq.beq, Value.beq] using hiff)
    | _ => rfl
  | _ => cases hw <;> rfl

end Value.Related

namespace Flow.Related

variable {F : Function → Function → Prop} {flow flow' : Flow}

theorem outward (h : flow.Related F flow') : flow.outward.Related F flow'.outward := by
  cases h with
  | normal => exact .normal
  | value hv => exact .normal
  | ret hv => exact .ret hv

theorem result (h : flow.Related F flow') : flow.result.Related F flow'.result := by
  cases h with
  | normal => exact .nil
  | value hv => exact .nil
  | ret hv => exact hv

end Flow.Related

namespace Operator

variable {F : Function → Function → Prop} {v v' w w' : Value}

/-- All functions are alike to a unary operator. -/
theorem unary_eq (op : Token) (h : v.Related F v') : unary op v = unary op v' := by
  simp only [unary, h.truthy_eq]
  cases h <;> rfl

theorem unary_ne_function (op : Token) (v : Value) (f : Function) :
    unary op v ≠ .ok (.function f) := by
  intro h
  simp only [unary] at h
  split at h
  · cases h
  · split at h <;> cases h
  · split at h <;> cases h
  · cases h

theorem binary_eq (hidentity : ∀ f f' g g', F f f' → F g g' →
      (f.identity = g.identity ↔ f'.identity = g'.identity))
    (op : Token) (hv : v.Related F v') (hw : w.Related F w') :
    binary op v w = binary op v' w' := by
  have hadd : add v w = add v' w' := by
    cases hv <;> cases hw <;> rfl
  simp only [binary, bne, hv.beq_eq hidentity hw, hadd]
  split
  · rfl
  · rfl
  · rfl
  · cases hv <;> cases hw <;> rfl

theorem binary_ne_function (op : Token) (v w : Value) (f : Function) :
    binary op v w ≠ .ok (.function f) := by
  intro h
  unfold binary at h
  split at h
  · have hadd := delivers_add v w
    rw [h] at hadd
    exact hadd f rfl
  · cases h
  · cases h
  · split at h
    · split at h
      · cases h
      · next harith => exact arithmetic?_ne_function harith _ _ f (Except.ok.inj h)
      · cases h
    · cases h

end Operator

end Scriptlet
