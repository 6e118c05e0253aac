import Scriptlet.Evaluation.Evaluate
import Scriptlet.Tree.ReturnPlacement

namespace Scriptlet

namespace Action

variable {α β : Type}

/-- No run ends with a value in the given way. -/
def NeverEnds (way : Value → Flow) (x : Action Flow) : Prop := ∀ m v m', x m ≠ .done (way v) m'

/-- Only the last of several actions decides how they end. -/
theorem neverEnds_bind {way : Value → Flow} (x : Action α) {f : α → Action Flow}
    (hf : ∀ a, NeverEnds way (f a)) : NeverEnds way (x >>= f) := by
  intro m v m' h
  rw [bind_apply] at h
  cases hx : x m with
  | done a m'' =>
    rw [hx] at h
    exact hf a m'' v m' h
  | error e m'' =>
    rw [hx] at h
    cases h
  | unfinished =>
    rw [hx] at h
    cases h

theorem NeverEnds.inScope {way : Value → Flow} {x : Action Flow} (hx : NeverEnds way x)
    (env : Env) : NeverEnds way (inScope env x) := by
  intro m v m' h
  simp only [Action.inScope] at h
  cases hm : x ⟨m.store, m.output, env⟩ with
  | done flow m'' =>
    rw [hm] at h
    cases h
    exact hx _ v m'' hm
  | error e m'' =>
    rw [hm] at h
    cases h
  | unfinished =>
    rw [hm] at h
    cases h

theorem NeverEnds.ite {way : Value → Flow} {c : Prop} [Decidable c] {x y : Action Flow}
    (hx : NeverEnds way x) (hy : NeverEnds way y) : NeverEnds way (if c then x else y) := by
  split
  · exact hx
  · exact hy

/-- No run ends with a `return` on its way out. -/
def NeverReturns (x : Action Flow) : Prop := ∀ m v m', x m ≠ .done (.ret v) m'

private theorem neverReturns_normal : NeverReturns (pure .normal) := by
  intro m v m' h
  cases h

private theorem neverReturns_value (v : Value) : NeverReturns (pure (.value v)) := by
  intro m w m' h
  cases h

private theorem neverReturns_cutOff : NeverReturns cutOff := by
  intro m v m' h
  cases h

private theorem neverReturns_bind (x : Action α) {f : α → Action Flow}
    (hf : ∀ a, NeverReturns (f a)) :
    NeverReturns (x >>= f) :=
  neverEnds_bind x hf

theorem NeverReturns.bind {x : Action Flow} {f : Flow → Action Flow} (hx : NeverReturns x)
    (hf : ∀ flow, (∀ v, flow ≠ .ret v) → NeverReturns (f flow)) : NeverReturns (x >>= f) := by
  intro m v m' h
  rw [bind_apply] at h
  cases hm : x m with
  | done flow m'' =>
    rw [hm] at h
    have ended : ∀ w, flow ≠ .ret w := by
      intro w hw
      exact hx m w m'' (hw ▸ hm)
    exact hf flow ended m'' v m' h
  | error e m'' =>
    rw [hm] at h
    cases h
  | unfinished =>
    rw [hm] at h
    cases h

theorem NeverReturns.inScope {x : Action Flow} (hx : NeverReturns x) (env : Env) :
    NeverReturns (inScope env x) :=
  NeverEnds.inScope hx env

theorem NeverReturns.ite {c : Prop} [Decidable c] {x y : Action Flow} (hx : NeverReturns x)
    (hy : NeverReturns y) : NeverReturns (if c then x else y) :=
  NeverEnds.ite hx hy

theorem NeverReturns.outward {x : Action Flow} (hx : NeverReturns x) :
    NeverReturns (x >>= fun flow => pure flow.outward) := by
  apply hx.bind
  intro flow hflow
  cases flow with
  | ret v => exact absurd rfl (hflow v)
  | normal => exact neverReturns_normal
  | value v => exact neverReturns_normal

end Action

namespace Evaluation

open Scriptlet.Action

variable {calls : Calls}

private theorem neverReturns_repeatWhile (condition : Action Value) {body : Action Flow}
    (hb : NeverReturns body) (bound : Nat) : NeverReturns (repeatWhile condition body bound) := by
  induction bound with
  | zero => exact neverReturns_cutOff
  | succ bound ih =>
    simp only [repeatWhile]
    apply neverReturns_bind
    intro v
    apply NeverReturns.ite
    · apply hb.bind
      intro flow hflow
      cases flow with
      | ret v => exact absurd rfl (hflow v)
      | normal => exact ih
      | value v => exact ih
    · exact neverReturns_normal

mutual

/-- What a called function returns is a value where it was called. -/
theorem neverReturns_executeWith (bound : Nat) : (s : Stmt) → s.exposedReturns = [] →
    NeverReturns (executeWith calls bound s)
  | .expression e, _ => by
    simp only [executeWith]
    apply neverReturns_bind
    intro v
    exact neverReturns_value v
  | .print keyword e, _ => by
    simp only [executeWith]
    apply neverReturns_bind
    intro v
    apply neverReturns_bind
    intro _
    exact neverReturns_normal
  | .var name none, _ => by
    simp only [executeWith]
    apply neverReturns_bind
    intro env
    apply neverReturns_bind
    intro _
    exact neverReturns_normal
  | .var name (some e), _ => by
    simp only [executeWith]
    apply neverReturns_bind
    intro v
    apply neverReturns_bind
    intro env
    apply neverReturns_bind
    intro _
    exact neverReturns_normal
  | .block body, h => by
    simp only [Stmt.exposedReturns] at h
    simp only [executeWith]
    apply neverReturns_bind
    intro env
    apply neverReturns_bind
    intro inner
    exact (neverReturns_executeAllWith bound body h).inScope inner
  | .ifThen c yes, h => by
    simp only [Stmt.exposedReturns] at h
    simp only [executeWith]
    apply neverReturns_bind
    intro v
    exact (neverReturns_executeWith bound yes h).outward.ite neverReturns_normal
  | .ifElse c yes no, h => by
    simp only [Stmt.exposedReturns, List.append_eq_nil_iff] at h
    simp only [executeWith]
    apply neverReturns_bind
    intro v
    exact (neverReturns_executeWith bound yes h.1).outward.ite
      (neverReturns_executeWith bound no h.2).outward
  | .loop c body, h => by
    simp only [Stmt.exposedReturns] at h
    simp only [executeWith]
    exact neverReturns_repeatWhile _ (neverReturns_executeWith bound body h) bound
  | .function name params body, _ => by
    simp only [executeWith]
    apply neverReturns_bind
    intro env
    apply neverReturns_bind
    intro f
    apply neverReturns_bind
    intro here
    apply neverReturns_bind
    intro _
    exact neverReturns_normal
  | .ret _ _, h => by simp [Stmt.exposedReturns] at h
  | .broken, _ => neverReturns_normal

private theorem neverReturns_executeAllWith (bound : Nat) : (ss : List Stmt) →
    Stmt.exposedReturnsOf ss = [] → NeverReturns (executeAllWith calls bound ss)
  | [], _ => neverReturns_normal
  | s :: ss, h => by
    simp only [Stmt.exposedReturnsOf, List.append_eq_nil_iff] at h
    simp only [executeAllWith]
    apply (neverReturns_executeWith bound s h.1).bind
    intro flow hflow
    have rest := neverReturns_executeAllWith bound ss h.2
    cases flow with
    | ret v => exact absurd rfl (hflow v)
    | normal => exact rest
    | value v => exact rest

end

end Evaluation

end Scriptlet
