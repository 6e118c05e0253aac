import Scriptlet.Proofs.Evaluation.Compositional
import Scriptlet.Proofs.Evaluation.ReturnPlacement

namespace Scriptlet

namespace Action

private theorem neverShows_normal : NeverEnds .value (pure .normal) := by
  intro m v m' h
  cases h

private theorem neverShows_ret (v : Value) : NeverEnds .value (pure (.ret v)) := by
  intro m w m' h
  cases h

private theorem neverShows_outward (flow : Flow) : NeverEnds .value (pure flow.outward) := by
  cases flow with
  | ret v => exact neverShows_ret v
  | normal => exact neverShows_normal
  | value v => exact neverShows_normal

end Action

namespace Evaluation

open Scriptlet.Action

variable {calls : Calls}

private theorem neverShows_repeatWhile (condition : Action Value) (body : Action Flow)
    (bound : Nat) :
    NeverEnds .value (repeatWhile condition body bound) := by
  induction bound with
  | zero =>
    intro m v m' h
    cases h
  | succ bound ih =>
    simp only [repeatWhile]
    apply neverEnds_bind
    intro v
    apply NeverEnds.ite
    · apply neverEnds_bind
      intro flow
      cases flow with
      | ret w => exact neverShows_ret w
      | normal => exact ih
      | value w => exact ih
    · exact neverShows_normal

private theorem neverShows_executeAllWith (bound : Nat) (ss : List Stmt) :
    NeverEnds .value (executeAllWith calls bound ss) := by
  induction ss with
  | nil => exact neverShows_normal
  | cons s ss ih =>
    simp only [executeAllWith]
    apply neverEnds_bind
    intro flow
    cases flow with
    | ret v => exact neverShows_ret v
    | normal => exact ih
    | value v => exact ih

private theorem neverShows_executeWith (bound : Nat) {s : Stmt} (h : ∀ e, s ≠ .expression e) :
    NeverEnds .value (executeWith calls bound s) := by
  cases s with
  | expression e => exact absurd rfl (h e)
  | print keyword e =>
    simp only [executeWith]
    apply neverEnds_bind
    intro v
    apply neverEnds_bind
    intro _
    exact neverShows_normal
  | var name init =>
    cases init with
    | none =>
      simp only [executeWith]
      apply neverEnds_bind
      intro env
      apply neverEnds_bind
      intro _
      exact neverShows_normal
    | some e =>
      simp only [executeWith]
      apply neverEnds_bind
      intro v
      apply neverEnds_bind
      intro env
      apply neverEnds_bind
      intro _
      exact neverShows_normal
  | block body =>
    simp only [executeWith]
    apply neverEnds_bind
    intro env
    apply neverEnds_bind
    intro inner
    exact (neverShows_executeAllWith bound body).inScope inner
  | ifThen c yes =>
    simp only [executeWith]
    apply neverEnds_bind
    intro v
    exact (neverEnds_bind _ neverShows_outward).ite neverShows_normal
  | ifElse c yes no =>
    simp only [executeWith]
    apply neverEnds_bind
    intro v
    exact (neverEnds_bind _ neverShows_outward).ite (neverEnds_bind _ neverShows_outward)
  | loop c body =>
    simp only [executeWith]
    exact neverShows_repeatWhile _ _ bound
  | function name params body =>
    simp only [executeWith]
    apply neverEnds_bind
    intro env
    apply neverEnds_bind
    intro f
    apply neverEnds_bind
    intro here
    apply neverEnds_bind
    intro _
    exact neverShows_normal
  | ret keyword value =>
    cases value with
    | none => exact neverShows_ret .nil
    | some e =>
      simp only [executeWith]
      apply neverEnds_bind
      intro v
      exact neverShows_ret v
  | broken => exact neverShows_normal

/-- Only an expression statement ends with a value, which is that of the expression. -/
theorem executeWith_eq_value_iff {bound : Nat} {s : Stmt} {m m' : Machine} {v : Value} :
    executeWith calls bound s m = .done (.value v) m' ↔
      ∃ e, s = .expression e ∧ evaluateWith calls e m = .done v m' := by
  have hexpression (e : Expr) : executeWith calls bound (.expression e) m = .done (.value v) m' ↔
      evaluateWith calls e m = .done v m' := by
    simp only [executeWith, bind_apply]
    cases evaluateWith calls e m with
    | done w m'' => simp [pure_apply]
    | error e m'' => simp
    | unfinished => simp
  constructor
  · intro h
    by_cases hs : ∃ e, s = .expression e
    · obtain ⟨e, rfl⟩ := hs
      exact ⟨e, rfl, (hexpression e).1 h⟩
    · have hother : ∀ e, s ≠ .expression e := fun e he => hs ⟨e, he⟩
      exact absurd h (neverShows_executeWith bound hother m v m')
  · rintro ⟨e, rfl, he⟩
    exact (hexpression e).2 he

end Evaluation

namespace Outcome

/-- If it came to an end, the limit of the output is the given one. -/
def HasLimit {α : Type} (limit : Option Nat) : Outcome α → Prop
  | .done _ m => m.output.limit = limit
  | .error _ m => m.output.limit = limit
  | .unfinished => True

end Outcome

namespace Action

variable {α β : Type}

/-- Leaves the limit of the output as it is. -/
def KeepsLimit (x : Action α) : Prop := ∀ m, (x m).HasLimit m.output.limit

theorem KeepsLimit.bind {x : Action α} {f : α → Action β} (hx : KeepsLimit x)
    (hf : ∀ a, KeepsLimit (f a)) : KeepsLimit (x >>= f) := by
  intro m
  have hm := hx m
  rw [bind_apply]
  cases h : x m with
  | done a m' =>
    rw [h] at hm
    have ha := hf a m'
    rw [show m'.output.limit = m.output.limit from hm] at ha
    exact ha
  | error e m' =>
    rw [h] at hm
    exact hm
  | unfinished => trivial

theorem KeepsLimit.inScope {x : Action α} (hx : KeepsLimit x) (env : Env) :
    KeepsLimit (inScope env x) := by
  intro m
  have hm := hx ⟨m.store, m.output, env⟩
  simp only [Action.inScope]
  cases h : x ⟨m.store, m.output, env⟩ with
  | done a m' =>
    rw [h] at hm
    exact hm
  | error e m' =>
    rw [h] at hm
    exact hm
  | unfinished => trivial

private theorem limit_write (o : Output) (text : String) : (o.write text).1.limit = o.limit := by
  unfold Output.write
  split
  · rfl
  · dsimp only
    split <;> rfl

private theorem keepsLimit_printLine (keyword : Token) (text : String) :
    KeepsLimit (printLine keyword text) := by
  intro m
  have hlimit := limit_write m.output (text ++ "\n")
  simp only [printLine]
  cases h : m.output.write (text ++ "\n") with
  | mk output written =>
    rw [h] at hlimit
    cases written <;> exact hlimit

theorem compositional_keepsLimit : Compositional id fun _ _ x _ => KeepsLimit x where
  pure _ _ _ := rfl
  bind := KeepsLimit.bind
  inScope env h := h.inScope env
  cutOff _ _ := trivial
  raise _ _ _ _ := rfl
  scope _ := rfl
  read env name m := by
    simp only [read]
    cases m.store.get? env name.lexeme <;> rfl
  assign env name v m := by
    simp only [assign]
    cases m.store.holder? env.chain name.lexeme <;> rfl
  define _ _ _ _ := rfl
  defineAll _ _ _ _ := rfl
  openScope _ _ := rfl
  newFunction _ _ _ _ _ := rfl
  printLine := keepsLimit_printLine

end Action

namespace Evaluation

open Scriptlet.Action

theorem keepsLimit_executeWith (bound : Nat) (s : Stmt) :
    KeepsLimit (executeWith (call bound) bound s) :=
  compositional_keepsLimit.executeWith (compositional_keepsLimit.call bound) bound s

end Evaluation

end Scriptlet
