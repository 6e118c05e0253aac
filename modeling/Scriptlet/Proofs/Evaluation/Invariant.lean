import Scriptlet.Proofs.Evaluation.Coupling
import Scriptlet.Proofs.Scope.StoredFunctions

namespace Scriptlet

private theorem Value.related_self_iff {p : Function → Prop} {v v' : Value} :
    v.Related (fun f f' => f = f' ∧ p f) v' ↔ v = v' ∧ v.FunctionHas p := by
  constructor
  · intro h
    cases h with
    | @function f f' hf =>
      obtain ⟨rfl, hf⟩ := hf
      exact ⟨rfl, fun g hg => Value.function.inj hg ▸ hf⟩
    | _ => exact ⟨rfl, .of_ne fun f hf => by cases hf⟩
  · rintro ⟨rfl, h⟩
    cases v with
    | function f => exact .function ⟨rfl, h f rfl⟩
    | _ => exact .of_ne fun f hf => by cases hf

namespace Flow

/-- The value that a statement ends with, if it ends with one. -/
def value? : Flow → Option Value
  | normal => none
  | value v | ret v => some v

/-- The flow carries no function, or one that satisfies `p`. -/
def FunctionHas (p : Function → Prop) (flow : Flow) : Prop :=
  ∀ v, flow.value? = some v → v.FunctionHas p

private theorem related_self {p : Function → Prop} {flow flow' : Flow}
    (h : flow.Related (fun f f' => f = f' ∧ p f) flow') : flow.FunctionHas p := by
  cases h with
  | normal =>
    intro v hv
    cases hv
  | value hw =>
    intro v hv
    cases hv
    exact (Value.related_self_iff.1 hw).2
  | ret hw =>
    intro v hv
    cases hv
    exact (Value.related_self_iff.1 hw).2

end Flow

/-- The machine that an outcome leaves. -/
def Outcome.machine? {α : Type} : Outcome α → Option Machine
  | .done _ m | .error _ m => some m
  | .unfinished => none

/-- What holds of the scopes, the functions and the store of a program while it runs. Names are looked
up in scopes that satisfy `env`, and declared in ones that satisfy `binds`. -/
structure Invariant (World : Type) [Preorder World] where
  env : World → Env → Prop
  binds : World → Env → Prop
  function : World → Function → Prop
  store : World → Store → Prop
  env_mono {w u : World} {e : Env} : w ≤ u → env w e → env u e
  binds_mono {w u : World} {e : Env} : w ≤ u → binds w e → binds u e
  function_mono {w u : World} {f : Function} : w ≤ u → function w f → function u f
  env_of_binds {w : World} {e : Env} : binds w e → env w e
  env_closure {w : World} {f : Function} : function w f → env w f.closure
  store_get? {w : World} {s : Store} {e : Env} {name : String} {v : Value} : store w s → env w e →
    s.get? e name = some v → v.FunctionHas (function w)
  store_assign? {w : World} {s s' : Store} {e : Env} {name : String} {v : Value} : store w s →
    env w e → v.FunctionHas (function w) → s.assign? e name v = some s' → store w s'
  store_define {w : World} {s : Store} {e : Env} {v : Value} (name : String) : store w s →
    binds w e → v.FunctionHas (function w) → store w (s.define e name v)
  store_openScope {w : World} {s : Store} {e : Env} : store w s → env w e →
    ∃ u, w ≤ u ∧ binds u (s.openScope e.chain).1 ∧ store u (s.openScope e.chain).2
  store_newFunction {w : World} {s : Store} {e : Env} (name : Token) (params : List Token)
    (body : List Stmt) : store w s → env w e →
    ∃ u, w ≤ u ∧ function u (s.newFunction name params body e).1 ∧
      store u (s.newFunction name params body e).2

namespace Invariant

/-- The world of an invariant that says the same all the time. -/
inductive Still where
  | still

instance : Preorder Still where
  le _ _ := True
  le_refl _ := trivial
  le_trans _ _ _ _ _ := trivial

open Scriptlet.Action Evaluation

variable {World : Type} [Preorder World] (I : Invariant World)

/-- Everything corresponds to itself. -/
def coupling : Coupling World where
  env w e e' := e = e' ∧ I.env w e
  binds w e e' := e = e' ∧ I.binds w e
  function w f f' := f = f' ∧ I.function w f
  store w s s' := s = s' ∧ I.store w s
  output o o' := o = o'
  env_mono hu := And.imp_right (I.env_mono hu)
  binds_mono hu := And.imp_right (I.binds_mono hu)
  function_mono hu := And.imp_right (I.function_mono hu)
  env_of_binds := And.imp_right I.env_of_binds
  code_eq := by
    rintro w f _ ⟨rfl, -⟩
    exact ⟨rfl, rfl, rfl⟩
  env_closure := by
    rintro w f _ ⟨rfl, hf⟩
    exact ⟨rfl, I.env_closure hf⟩
  identity_iff := by
    rintro w f _ g _ ⟨rfl, -⟩ ⟨rfl, -⟩
    exact Iff.rfl
  store_get? := by
    rintro w s _ e _ name ⟨rfl, hs⟩ ⟨rfl, he⟩
    cases hv : s.get? e name with
    | none => exact .none
    | some v => exact .some (Value.related_self_iff.2 ⟨rfl, I.store_get? hs he hv⟩)
  store_assign? := by
    rintro w s _ e _ v v' name ⟨rfl, hs⟩ ⟨rfl, he⟩ hvalue
    obtain ⟨rfl, hv⟩ := Value.related_self_iff.1 hvalue
    cases hs' : s.assign? e name v with
    | none => exact .none
    | some s' => exact .some ⟨rfl, I.store_assign? hs he hv hs'⟩
  store_define := by
    rintro w s _ e _ v v' name ⟨rfl, hs⟩ ⟨rfl, he⟩ hvalue
    obtain ⟨rfl, hv⟩ := Value.related_self_iff.1 hvalue
    exact ⟨rfl, I.store_define name hs he hv⟩
  store_openScope := by
    rintro w s _ e _ ⟨rfl, hs⟩ ⟨rfl, he⟩
    obtain ⟨u, hu, hbinds, hstore⟩ := I.store_openScope hs he
    exact ⟨u, hu, ⟨rfl, hbinds⟩, rfl, hstore⟩
  store_newFunction := by
    rintro w s _ e _ name params body ⟨rfl, hs⟩ ⟨rfl, he⟩
    obtain ⟨u, hu, hf, hstore⟩ := I.store_newFunction name params body hs he
    exact ⟨u, hu, ⟨rfl, hf⟩, rfl, hstore⟩
  output_write := @Output.write_same

variable {α : Type}

/-- What the outcome leaves behind satisfies the invariant in a world that has grown since `w`. -/
inductive Keeps (R : World → α → Prop) (w : World) : Outcome α → Prop where
  | done {u : World} {a : α} {m : Machine} : w ≤ u → R u a → I.store u m.store →
    Keeps R w (.done a m)
  | error {u : World} {m : Machine} (err : RuntimeError) : w ≤ u → I.store u m.store →
    Keeps R w (.error err m)
  | unfinished : Keeps R w .unfinished

variable {I} {w : World} {m : Machine}

theorem Keeps.imp {R Q : World → α → Prop} {r : Outcome α} (h : I.Keeps R w r)
    (hRQ : ∀ u a, R u a → Q u a) : I.Keeps Q w r := by
  cases h with
  | done hu ha hs => exact .done hu (hRQ _ _ ha) hs
  | error err hu hs => exact .error err hu hs
  | unfinished => exact .unfinished

theorem Keeps.exists_store {R : World → α → Prop} {r : Outcome α} (h : I.Keeps R w r)
    (hm : r.machine? = some m) : ∃ u, w ≤ u ∧ I.store u m.store := by
  cases h with
  | done hu _ hs =>
    cases hm
    exact ⟨_, hu, hs⟩
  | error _ hu hs =>
    cases hm
    exact ⟨_, hu, hs⟩
  | unfinished => cases hm

theorem Keeps.of_couples {R : World → α → α → Prop} {Q : World → α → Prop} {x : Action α}
    (hx : I.coupling.Couples w m.scope m.scope R x x) (hs : I.store w m.store)
    (hR : ∀ u a a', R u a a' → Q u a) : I.Keeps Q w (x m) := by
  have hself : I.coupling.Outcomes m.scope m.scope R w (x m) (x m) :=
    hx w le_rfl m.store m.store m.output m.output ⟨rfl, hs⟩ rfl
  generalize x m = r at hself ⊢
  generalize hr' : r = r' at hself
  cases hself with
  | done hu ha hs' _ => exact .done hu (hR _ _ _ ha) hs'.2
  | error err hu hs' _ => exact .error err hu hs'.2
  | unfinished => exact .unfinished

theorem keeps_evaluateWith (bound : Nat) (x : Expr) (hs : I.store w m.store)
    (he : I.env w m.scope) :
    I.Keeps (fun u v => v.FunctionHas (I.function u)) w (evaluateWith (call bound) x m) := by
  have hcouples := I.coupling.evaluateWith (I.coupling.call bound) x ⟨rfl, he⟩
  exact .of_couples hcouples hs fun _ _ _ hv => (Value.related_self_iff.1 hv).2

theorem keeps_evaluateAllWith (bound : Nat) (xs : List Expr) (hs : I.store w m.store)
    (he : I.env w m.scope) :
    I.Keeps (fun u vs => ∀ v ∈ vs, v.FunctionHas (I.function u)) w
      (evaluateAllWith (call bound) xs m) := by
  have hcouples := I.coupling.evaluateAllWith (I.coupling.call bound) xs ⟨rfl, he⟩
  refine .of_couples hcouples hs fun u vs vs' hvs => ?_
  induction hvs with
  | nil => exact List.forall_mem_nil _
  | cons hv _ ih => exact List.forall_mem_cons.2 ⟨(Value.related_self_iff.1 hv).2, ih⟩

theorem keeps_executeWith (bound : Nat) (st : Stmt) (hs : I.store w m.store) (he : I.env w m.scope)
    (hb : st.exposedDeclarations ≠ [] → I.binds w m.scope) :
    I.Keeps (fun u flow => flow.FunctionHas (I.function u)) w
      (executeWith (call bound) bound st m) := by
  have hcouples := I.coupling.executeWith (I.coupling.call bound) bound st ⟨rfl, he⟩
    fun h => ⟨rfl, hb h⟩
  exact .of_couples hcouples hs fun _ _ _ => Flow.related_self

theorem keeps_executeAll (bound : Nat) {env : Env} (ss : List Stmt) (hs : I.store w m.store)
    (hb : I.binds w env) :
    I.Keeps (fun u flow => flow.FunctionHas (I.function u)) w (executeAll bound env ss m) := by
  have hcouples := I.coupling.executeAllWith (I.coupling.call bound) bound ss ⟨rfl, hb⟩
  exact .of_couples (hcouples.inScope _ _) hs fun _ _ _ => Flow.related_self

theorem keeps_call (bound : Nat) {f : Function} {args : List Value} (hs : I.store w m.store)
    (hf : I.function w f) (hargs : ∀ v ∈ args, v.FunctionHas (I.function w)) :
    I.Keeps (fun u v => v.FunctionHas (I.function u)) w (call bound f args m) := by
  have hargs' : List.Forall₂ (I.coupling.values w) args args :=
    List.forall₂_same.2 fun v hv => Value.related_self_iff.2 ⟨rfl, hargs v hv⟩
  have hcouples := I.coupling.call bound w f f args args ⟨rfl, hf⟩ hargs' m.scope m.scope
  exact .of_couples hcouples hs fun _ _ _ hv => (Value.related_self_iff.1 hv).2

end Invariant

end Scriptlet
