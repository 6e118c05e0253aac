import Scriptlet.Proofs.Evaluation.Instrument

namespace Scriptlet

open Evaluation

/-- Evaluation with something else in place of broken statements. -/
def Instrument.filled (gap : Action Flow) : Instrument Action := { plain with broken := gap }

/-- All functions that the store holds are well-formed. -/
def Machine.Sound (m : Machine) : Prop := m.store.EachFunction Function.WellFormed

/-- No fault of an operator, and nothing that is not sound is left behind. -/
def Outcome.Sound {α : Type} (ok : α → Prop) : Outcome α → Prop
  | .done a m => ok a ∧ m.Sound
  | .error e m => e.fault.isOperatorFault = false ∧ m.Sound
  | .unfinished => True

namespace Action

variable {α β : Type} {ok : α → Prop} {ok' : β → Prop}

/-- Where the store is sound the two actions do the same, and soundly; what they end with is `ok`. -/
def Agree (ok : α → Prop) (x y : Action α) : Prop :=
  ∀ m : Machine, m.Sound → x m = y m ∧ (y m).Sound ok

private theorem agree_pure {a : α} (h : ok a) : Agree ok (pure a) (pure a) :=
  fun _ hm => ⟨rfl, h, hm⟩

private theorem agree_cutOff : Agree ok cutOff cutOff := fun _ _ => ⟨rfl, trivial⟩

private theorem agree_raise (token : Token) {fault : RuntimeFault}
    (h : fault.isOperatorFault = false) :
    Agree ok (raise token fault) (raise token fault) :=
  fun _ hm => ⟨rfl, h, hm⟩

theorem Agree.bind {x y : Action α} {f g : α → Action β} (h : Agree ok x y)
    (hf : ∀ a, ok a → Agree ok' (f a) (g a)) : Agree ok' (x >>= f) (y >>= g) := by
  intro m hm
  obtain ⟨hxy, hsound⟩ := h m hm
  rw [bind_apply, bind_apply, hxy]
  cases hy : y m with
  | done a m' =>
    rw [hy] at hsound
    exact hf a hsound.1 m' hsound.2
  | error e m' =>
    rw [hy] at hsound
    exact ⟨rfl, hsound⟩
  | unfinished => exact ⟨rfl, trivial⟩

theorem Agree.inScope {x y : Action α} (h : Agree ok x y) (env : Env) :
    Agree ok (inScope env x) (inScope env y) := by
  intro m hm
  obtain ⟨hxy, hsound⟩ := h ⟨m.store, m.output, env⟩ hm
  simp only [Action.inScope]
  rw [hxy]
  refine ⟨rfl, ?_⟩
  cases hy : y ⟨m.store, m.output, env⟩ with
  | done a m' =>
    rw [hy] at hsound
    exact hsound
  | error e m' =>
    rw [hy] at hsound
    exact hsound
  | unfinished => trivial

private theorem agree_scope : Agree (fun _ => True) scope scope := fun _ hm => ⟨rfl, trivial, hm⟩

private theorem agree_read (env : Env) (name : Token) :
    Agree Value.Sound (read env name) (read env name) := by
  intro m hm
  refine ⟨rfl, ?_⟩
  simp only [read]
  cases h : m.store.get? env name.lexeme with
  | none => exact ⟨rfl, hm⟩
  | some v => exact ⟨Store.EachFunction.get? hm h, hm⟩

private theorem agree_assign (env : Env) (name : Token) {v : Value} (hv : v.Sound) :
    Agree (fun _ => True) (assign env name v) (assign env name v) := by
  intro m hm
  refine ⟨rfl, ?_⟩
  simp only [assign]
  cases m.store.holder? env.chain name.lexeme with
  | none => exact ⟨rfl, hm⟩
  | some holder => exact ⟨trivial, Store.EachFunction.bindIn hm holder name.lexeme hv⟩

private theorem agree_define (env : Env) (name : String) {v : Value} (hv : v.Sound) :
    Agree (fun _ => True) (define env name v) (define env name v) :=
  fun _ hm => ⟨rfl, trivial, Store.EachFunction.define hm env name hv⟩

private theorem agree_defineAll (env : Env) (names : List Token) {vs : List Value}
    (hvs : ∀ v ∈ vs, v.Sound) :
    Agree (fun _ => True) (defineAll env names vs) (defineAll env names vs) :=
  fun _ hm => ⟨rfl, trivial, Store.EachFunction.defineAll hm env names hvs⟩

private theorem agree_openScope (outer : List Nat) :
    Agree (fun _ => True) (openScope outer) (openScope outer) :=
  fun _ hm => ⟨rfl, trivial, Store.EachFunction.openScope hm outer⟩

private theorem agree_newFunction (name : Token) (params : List Token) {body : List Stmt}
    (closure : Env) (hbody : ∀ s ∈ body, s.WellFormed) :
    Agree Function.WellFormed (newFunction name params body closure)
      (newFunction name params body closure) :=
  fun _ hm => ⟨rfl, hbody, Store.EachFunction.newFunction hm name params body closure⟩

private theorem agree_printLine (keyword : Token) (text : String) :
    Agree (fun _ => True) (printLine keyword text) (printLine keyword text) := by
  intro m hm
  refine ⟨rfl, ?_⟩
  simp only [printLine]
  obtain ⟨output, written⟩ := m.output.write (text ++ "\n")
  cases written with
  | false => exact ⟨rfl, hm⟩
  | true => exact ⟨trivial, hm⟩

end Action

namespace Instrument

open Scriptlet.Action

/-- Well-formed programs come to no broken statement and to no operator without a meaning, as long as the
functions that they find in the store are well-formed too, and so are those that they leave there. -/
theorem relates_agree (gap : Action Flow) :
    Relates (filled gap) plain True (fun (_ : Unit) _ => True) fun _ _ => Agree where
  pure _ _ h := agree_pure (h trivial)
  bind hx hf := hx.bind fun a ha => hf a fun _ => ha
  read _ name := agree_scope.bind fun env _ => agree_read env name
  assign _ name _ hv := agree_scope.bind fun env _ => agree_assign env name (hv trivial)
  define _ hv := agree_scope.bind fun env _ => agree_define env _ (hv trivial)
  declare {_ name params body} _ hbody := by
    apply agree_scope.bind
    intro env _
    apply (agree_newFunction name params env (hbody trivial)).bind
    intro f hf
    apply agree_scope.bind
    intro here _
    have hvalue : (Value.function f).Sound := by
      intro g hg
      cases hg
      exact hf
    exact agree_define here name.lexeme hvalue
  print _ := agree_printLine
  raise _ token _ h := agree_raise token (h trivial)
  cutOff _ := agree_cutOff
  broken _ h := absurd trivial h
  inBlock h := by
    apply agree_scope.bind
    intro env _
    apply (agree_openScope env.chain).bind
    intro inner _
    exact h.inScope inner
  inCall {f _ _} _ _ hargs h := by
    apply (agree_openScope f.closure.chain).bind
    intro env _
    apply (agree_defineAll env f.params (hargs trivial)).bind
    intro _ _
    exact (h () fun _ _ => trivial).inScope env

end Instrument

end Scriptlet
