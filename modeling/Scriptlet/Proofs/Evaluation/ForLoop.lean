import Scriptlet.Proofs.Evaluation.Coupling
import Scriptlet.Proofs.Grammar.Sentence
import Scriptlet.Proofs.Scope.Padding

namespace Scriptlet

open Scriptlet.Action Evaluation

namespace Evaluation

/-- What a `for` does first. A missing initializer does nothing. -/
def prepare (calls : Calls) (bound : Nat) : Option Stmt → Action Unit
  | none => pure ()
  | some s => do
    let _ ← executeWith calls bound s

/-- Whether there is another round. A missing condition is always true. -/
def goesOn (calls : Calls) : Option Expr → Action Bool
  | none => pure true
  | some c => do return (← evaluateWith calls c).truthy

/-- What is done between two rounds. -/
def increase (calls : Calls) : Option Expr → Action Unit
  | none => pure ()
  | some e => do
    let _ ← evaluateWith calls e

/-- At most `bound` rounds. After a `return` the increment is not evaluated. -/
def forRounds (condition : Action Bool) (body : Action Flow) (increment : Action Unit) :
    Nat → Action Flow
  | 0 => .cutOff
  | bound + 1 => do
    if ← condition then
      match ← body with
      | .ret v => pure (.ret v)
      | _ =>
        increment
        forRounds condition body increment bound
    else pure .normal

/-- The meaning of a `for`: all of its clauses and its body are in one new scope. -/
def forLoop (calls : Calls) (bound : Nat) (init : Option Stmt) (condition increment : Option Expr)
    (body : Stmt) : Action Flow := do
  let inner ← Action.openScope (← Action.scope).chain
  Action.inScope inner do
    prepare calls bound init
    forRounds (goesOn calls condition) (executeWith calls bound body) (increase calls increment) bound

variable (calls : Calls) (bound : Nat)

/-- An initializer does not return. -/
theorem executeAllWith_initializer {ts : List Token} {init : Option Stmt}
    (h : Grammar.InitialClause ts init) (ss : List Stmt) :
    executeAllWith calls bound (init.toList ++ ss) =
      prepare calls bound init >>= fun _ => executeAllWith calls bound ss := by
  cases h with
  | absent _ => rfl
  | binding h =>
    cases h <;>
      simp only [Option.toList_some, List.singleton_append, executeAllWith, prepare, executeWith,
        bind_assoc, pure_bind]
  | expression _ _ =>
    simp only [Option.toList_some, List.singleton_append, executeAllWith, prepare, executeWith,
      bind_assoc, pure_bind]

/-- A loop ends with a `return` or with nothing. -/
theorem repeatWhile_ends (condition : Action Value) (body : Action Flow) (n : Nat) :
    (repeatWhile condition body n >>= fun flow => match flow with
      | .ret v => pure (.ret v)
      | _ => pure .normal) = repeatWhile condition body n := by
  induction n with
  | zero => rfl
  | succ n ih =>
    simp only [repeatWhile, bind_assoc]
    refine bind_congr fun v => ?_
    split
    · rw [bind_assoc]
      refine bind_congr fun flow => ?_
      cases flow with
      | ret v => rfl
      | normal => exact ih
      | value v => exact ih
    · rfl

private theorem executeAllWith_loop (c : Expr) (body : Stmt) :
    executeAllWith calls bound [.loop c body] =
      repeatWhile (evaluateWith calls c) (executeWith calls bound body) bound := by
  simp only [executeAllWith, executeWith]
  exact repeatWhile_ends _ _ bound

/-- The body and then, unless it has met a `return`, the increment. -/
def forRound (body : Action Flow) (increment : Action Unit) : Action Flow := do
  match ← body with
  | .ret v => pure (.ret v)
  | _ =>
    increment
    pure .normal

private theorem forRounds_succ (condition : Action Bool) (body : Action Flow)
    (increment : Action Unit) (n : Nat) :
    forRounds condition body increment (n + 1) = condition >>= fun b =>
      if b then forRound body increment >>= fun flow => match flow with
        | .ret v => pure (.ret v)
        | _ => forRounds condition body increment n
      else pure .normal := by
  rw [forRounds]
  refine bind_congr fun b => ?_
  cases b with
  | false => rfl
  | true =>
    simp only [if_true, forRound, bind_assoc]
    refine bind_congr fun flow => ?_
    cases flow <;> simp only [bind_assoc, pure_bind]

end Evaluation

namespace Padding

/-- Programs do the same on stores that are the same but for hollow scopes. -/
def coupling : Coupling Padding where
  env := Envs
  binds := Binds
  function := Functions
  store := Agree
  output o o' := o = o'
  env_mono hu he := he.mono hu
  binds_mono hu he := he.mono hu
  function_mono hu hf := hf.mono hu
  env_of_binds := Binds.envs
  code_eq hf := ⟨hf.name, hf.params, hf.body⟩
  env_closure := Functions.closure
  identity_iff hf hg := by rw [hf.identity, hg.identity]
  store_get? name hs he := hs.get? he name
  store_assign? name hs he hv := hs.assign? he name hv
  store_define name hs he hv := hs.bindIn he.own name hv
  store_openScope hs he := hs.openScope he
  store_newFunction name params body hs he := ⟨_, le_rfl, hs.newFunction name params body he⟩
  output_write := @Output.write_same

variable {w : Padding} {e e' : Env}

/-- A block in which nothing is declared, against its contents without the block. -/
theorem couples_hollow {α : Type} {R : Padding → α → α → Prop} {f : Env → Action α} {y : Action α}
    (he : w.Envs e e') (hf : ∀ u, w ≤ u → ∀ i, u.Envs i e' → coupling.Couples u i e' R (f i) y) :
    coupling.Couples w e e' R (scope >>= fun cur => openScope cur.chain >>= fun i => inScope i (f i))
      y := by
  intro u hu s s' o o' hs ho
  obtain ⟨t, ht, henvs, hstore⟩ := Agree.openHollow hs (Chains.mono hu he)
  have hinner := (hf t (le_trans hu ht) _ henvs t le_rfl _ s' o o' hstore ho).of_le ht
  simp only [bind_apply, Action.scope, Action.openScope, Action.inScope]
  generalize y ⟨s', o', e'⟩ = r' at hinner ⊢
  generalize f _ _ = r at hinner ⊢
  cases hinner with
  | done ht ha hs ho => exact .done ht ha hs ho
  | error err ht hs ho => exact .error err ht hs ho
  | unfinished => exact .unfinished

/-- The flows mean the same to a loop around. -/
def Alike (w : Padding) (flow flow' : Flow) : Prop := coupling.flows w flow.outward flow'.outward

theorem couples_onward {x y next next' : Action Flow} (h : coupling.Couples w e e' Alike x y)
    (hnext : coupling.Couples w e e' coupling.flows next next') :
    coupling.Couples w e e' coupling.flows
      (x >>= fun flow => match flow with | .ret v => pure (.ret v) | _ => next)
      (y >>= fun flow => match flow with | .ret v => pure (.ret v) | _ => next') := by
  apply h.bind
  intro u hu flow flow' hflow
  have hmore := hnext.of_le hu
  cases flow <;> cases flow' <;> cases hflow
  case ret.ret.ret hv => exact Coupling.couples_flow (.ret hv)
  all_goals exact hmore

variable {calls : Calls} {bound : Nat}

private theorem couples_prepare (hcalls : coupling.CouplesCalls calls) (hb : w.Binds e e')
    (init : Option Stmt) :
    coupling.Couples w e e' (fun _ _ _ => True) (prepare calls bound init)
      (prepare calls bound init) := by
  cases init with
  | none => exact Coupling.couples_pure fun _ _ => trivial
  | some s =>
    apply (coupling.executeWith hcalls bound s hb.envs fun _ => hb).bind
    intro _ _ _ _ _
    exact Coupling.couples_pure fun _ _ => trivial

private theorem couples_goesOn (hcalls : coupling.CouplesCalls calls) (he : w.Envs e e')
    (c : Option Expr) :
    coupling.Couples w e e' (fun _ b b' => b = b')
      (do return (← evaluateWith calls (c.getD (.literal (.bool true)))).truthy) (goesOn calls c) := by
  cases c with
  | none =>
    simp only [Option.getD_none, evaluateWith, goesOn, pure_bind]
    exact Coupling.couples_pure fun _ _ => rfl
  | some c =>
    apply (coupling.evaluateWith hcalls c he).bind
    intro u hu v v' hv
    exact Coupling.couples_pure fun _ _ => hv.truthy_eq

private theorem couples_increase (hcalls : coupling.CouplesCalls calls) (he : w.Envs e e')
    (x : Expr) :
    coupling.Couples w e e' Alike (evaluateWith calls x >>= fun _ => pure .normal)
      (increase calls (some x) >>= fun _ => pure .normal) := by
  simp only [increase, bind_assoc, pure_bind]
  apply (coupling.evaluateWith hcalls x he).bind
  intro _ _ _ _ _
  exact Coupling.couples_pure fun _ _ => .normal

/-- What a round is in the tree of a `for`. -/
abbrev roundBlock (increment : Option Expr) (body : Stmt) : Stmt :=
  match increment with
  | none => body
  | some x => .block [body, .expression x]

/-- The body declares nothing around it, so the scope of a round stays hollow. -/
theorem couples_forRound (hcalls : coupling.CouplesCalls calls) (he : w.Envs e e') {body : Stmt}
    (hbody : body.exposedDeclarations = []) (increment : Option Expr) :
    coupling.Couples w e e' Alike (executeWith calls bound (roundBlock increment body))
      (forRound (executeWith calls bound body) (increase calls increment)) := by
  have hcouples {w : Padding} {e e' : Env} (he : w.Envs e e') :
      coupling.Couples w e e' coupling.flows (executeWith calls bound body)
        (executeWith calls bound body) :=
    coupling.executeWith hcalls bound body he fun h => absurd hbody h
  cases increment with
  | none =>
    have hround : coupling.Couples w e e' Alike (executeWith calls bound body >>= pure)
        (forRound (executeWith calls bound body) (increase calls none)) := by
      apply (hcouples he).bind
      intro u hu flow flow' hflow
      cases hflow with
      | ret hv => exact Coupling.couples_pure fun t ht => .ret (values_mono ht hv)
      | normal => exact Coupling.couples_pure fun _ _ => .normal
      | value _ => exact Coupling.couples_pure fun _ _ => .normal
    rwa [bind_pure] at hround
  | some x =>
    simp only [executeWith, executeAllWith, bind_assoc, pure_bind]
    apply couples_hollow he
    intro u hu i hi
    apply (hcouples hi).bind
    intro t ht flow flow' hflow
    have hnext := couples_increase (x := x) hcalls (Chains.mono ht hi)
    cases hflow with
    | ret hv => exact Coupling.couples_pure fun r hr => .ret (values_mono hr hv)
    | normal => exact hnext
    | value _ => exact hnext

private theorem couples_forRounds {condition : Action Value} {holds : Action Bool}
    {round body : Action Flow} {increment : Action Unit}
    (hc : coupling.Couples w e e' (fun _ b b' => b = b') (do return (← condition).truthy) holds)
    (hround : coupling.Couples w e e' Alike round (forRound body increment)) (n : Nat) :
    coupling.Couples w e e' coupling.flows (repeatWhile condition round n)
      (forRounds holds body increment n) := by
  induction n with
  | zero => exact Coupling.couples_cutOff
  | succ n ih =>
    have hsucc : repeatWhile condition round (n + 1) =
        (do return (← condition).truthy) >>= fun b =>
          if b then round >>= fun flow => match flow with
            | .ret v => pure (.ret v)
            | _ => repeatWhile condition round n
          else pure .normal := by
      simp only [bind_assoc, pure_bind]
      rfl
    rw [hsucc, forRounds_succ]
    apply hc.bind
    rintro u hu b _ rfl
    apply Coupling.Couples.ite
    · exact couples_onward (hround.of_le hu) (ih.of_le hu)
    · exact Coupling.couples_flow .normal

/-- The tree of a `for` does what its clauses say. -/
theorem couples_forLoop (hcalls : coupling.CouplesCalls calls) (he : w.Envs e e') {ts : List Token}
    {init : Option Stmt} (hinit : Grammar.InitialClause ts init) {body : Stmt}
    (hbody : body.exposedDeclarations = []) (c increment : Option Expr) :
    coupling.Couples w e e' coupling.flows
      (executeWith calls bound (Grammar.forBlock init c increment body))
      (forLoop calls bound init c increment body) := by
  simp only [Grammar.forBlock, executeWith, executeAllWith_initializer calls bound hinit, forLoop]
  apply Coupling.couples_scope_bind
  apply (Coupling.couples_openScope he).bind
  intro u hu i i' hi
  refine Coupling.Couples.inScope ?_ e e'
  apply (couples_prepare hcalls hi init).bind
  intro t ht _ _ _
  have henvs : t.Envs i i' := (hi.mono ht).envs
  rw [executeAllWith_loop]
  exact couples_forRounds (couples_goesOn hcalls henvs c)
    (couples_forRound hcalls henvs hbody increment) bound

end Padding

end Scriptlet
