import Mathlib.Data.List.Forall2
import Mathlib.Order.Defs.PartialOrder
import Scriptlet.Proofs.Evaluation.RelatedValues
import Scriptlet.Proofs.Tree.DeclarationPlacement

namespace Scriptlet

/-- What corresponds in two runs of a program. Names are looked up in scopes that are related by `env`,
and declared in ones that are related by `binds`. -/
structure Coupling (World : Type) [Preorder World] where
  env : World → Env → Env → Prop
  binds : World → Env → Env → Prop
  function : World → Function → Function → Prop
  store : World → Store → Store → Prop
  output : Output → Output → Prop
  env_mono {w u : World} {e e' : Env} : w ≤ u → env w e e' → env u e e'
  binds_mono {w u : World} {e e' : Env} : w ≤ u → binds w e e' → binds u e e'
  function_mono {w u : World} {f f' : Function} : w ≤ u → function w f f' → function u f f'
  env_of_binds {w : World} {e e' : Env} : binds w e e' → env w e e'
  code_eq {w : World} {f f' : Function} : function w f f' →
    f.name = f'.name ∧ f.params = f'.params ∧ f.body = f'.body
  env_closure {w : World} {f f' : Function} : function w f f' → env w f.closure f'.closure
  identity_iff {w : World} {f f' g g' : Function} : function w f f' → function w g g' →
    (f.identity = g.identity ↔ f'.identity = g'.identity)
  store_get? {w : World} {s s' : Store} {e e' : Env} (name : String) : store w s s' → env w e e' →
    Option.Rel (Value.Related (function w)) (s.get? e name) (s'.get? e' name)
  store_assign? {w : World} {s s' : Store} {e e' : Env} {v v' : Value} (name : String) : store w s s' →
    env w e e' → v.Related (function w) v' →
    Option.Rel (store w) (s.assign? e name v) (s'.assign? e' name v')
  store_define {w : World} {s s' : Store} {e e' : Env} {v v' : Value} (name : String) : store w s s' →
    binds w e e' → v.Related (function w) v' → store w (s.define e name v) (s'.define e' name v')
  store_openScope {w : World} {s s' : Store} {e e' : Env} : store w s s' → env w e e' →
    ∃ u, w ≤ u ∧ binds u (s.openScope e.chain).1 (s'.openScope e'.chain).1 ∧
      store u (s.openScope e.chain).2 (s'.openScope e'.chain).2
  store_newFunction {w : World} {s s' : Store} {e e' : Env} (name : Token) (params : List Token)
    (body : List Stmt) : store w s s' → env w e e' →
    ∃ u, w ≤ u ∧ function u (s.newFunction name params body e).1 (s'.newFunction name params body e').1 ∧
      store u (s.newFunction name params body e).2 (s'.newFunction name params body e').2
  output_write {o o' : Output} (text : String) : output o o' →
    output (o.write text).1 (o'.write text).1 ∧ (o.write text).2 = (o'.write text).2 ∧
      ((o.write text).2 = false → (o.write text).1.refusal = (o'.write text).1.refusal)

theorem Output.write_same {o o' : Output} (text : String) (h : o = o') :
    (o.write text).1 = (o'.write text).1 ∧ (o.write text).2 = (o'.write text).2 ∧
      ((o.write text).2 = false → (o.write text).1.refusal = (o'.write text).1.refusal) := by
  subst h
  exact ⟨rfl, rfl, fun _ => rfl⟩

namespace Coupling

open Scriptlet.Action Evaluation

variable {World : Type} [Preorder World] (C : Coupling World)

abbrev values (w : World) : Value → Value → Prop := Value.Related (C.function w)

abbrev flows (w : World) : Flow → Flow → Prop := Flow.Related (C.function w)

variable {α β : Type}

/-- Both runs end in the same way, each in its scope, and what they end with corresponds in a world
that has grown since `w`. -/
inductive Outcomes (e e' : Env) (R : World → α → α → Prop) (w : World) :
    Outcome α → Outcome α → Prop where
  | done {u : World} {a a' : α} {s s' : Store} {o o' : Output} : w ≤ u → R u a a' →
    C.store u s s' → C.output o o' → Outcomes e e' R w (.done a ⟨s, o, e⟩) (.done a' ⟨s', o', e'⟩)
  | error {u : World} {s s' : Store} {o o' : Output} (err : RuntimeError) : w ≤ u →
    C.store u s s' → C.output o o' →
    Outcomes e e' R w (.error err ⟨s, o, e⟩) (.error err ⟨s', o', e'⟩)
  | unfinished : Outcomes e e' R w .unfinished .unfinished

/-- The two actions do what corresponds when they start in the given scopes, from now on. -/
def Couples (w : World) (e e' : Env) (R : World → α → α → Prop) (x y : Action α) : Prop :=
  ∀ u, w ≤ u → ∀ s s' o o', C.store u s s' → C.output o o' →
    C.Outcomes e e' R u (x ⟨s, o, e⟩) (y ⟨s', o', e'⟩)

variable {C} {w u : World} {e e' i i' : Env} {R : World → α → α → Prop} {Q : World → β → β → Prop}

theorem Outcomes.of_le {r r' : Outcome α} (h : C.Outcomes e e' R u r r') (hwu : w ≤ u) :
    C.Outcomes e e' R w r r' := by
  cases h with
  | done hu ha hs ho => exact .done (le_trans hwu hu) ha hs ho
  | error err hu hs ho => exact .error err (le_trans hwu hu) hs ho
  | unfinished => exact .unfinished

theorem couples_pure {a a' : α} (h : ∀ u, w ≤ u → R u a a') :
    C.Couples w e e' R (pure a) (pure a') :=
  fun u hu _ _ _ _ hs ho => .done le_rfl (h u hu) hs ho

theorem couples_cutOff : C.Couples w e e' R cutOff cutOff := fun _ _ _ _ _ _ _ _ => .unfinished

private theorem couples_raise (token : Token) (fault : RuntimeFault) :
    C.Couples w e e' R (raise token fault) (raise token fault) :=
  fun _ _ _ _ _ _ hs ho => .error _ le_rfl hs ho

theorem Couples.of_le {x y : Action α} (h : C.Couples w e e' R x y) (hwu : w ≤ u) :
    C.Couples u e e' R x y :=
  fun t ht => h t (le_trans hwu ht)

/-- The second actions start in the world in which the first ones end. -/
theorem Couples.bind {x y : Action α} {f g : α → Action β} (h : C.Couples w e e' R x y)
    (hf : ∀ u, w ≤ u → ∀ a a', R u a a' → C.Couples u e e' Q (f a) (g a')) :
    C.Couples w e e' Q (x >>= f) (y >>= g) := by
  intro u hu s s' o o' hs ho
  have hfirst := h u hu s s' o o' hs ho
  rw [bind_apply, bind_apply]
  generalize x ⟨s, o, e⟩ = r at hfirst ⊢
  generalize y ⟨s', o', e'⟩ = r' at hfirst ⊢
  cases hfirst with
  | done ht ha hs ho => exact (hf _ (le_trans hu ht) _ _ ha _ le_rfl _ _ _ _ hs ho).of_le ht
  | error err ht hs ho => exact .error err ht hs ho
  | unfinished => exact .unfinished

theorem Couples.ite {c : Prop} [Decidable c] {x y x' y' : Action α} (h : C.Couples w e e' R x y)
    (h' : C.Couples w e e' R x' y') :
    C.Couples w e e' R (if c then x else x') (if c then y else y') := by
  split
  · exact h
  · exact h'

/-- Whatever runs in scopes of its own does not hear of the scopes around it. -/
theorem Couples.inScope {x y : Action α} (h : C.Couples w i i' R x y) (e e' : Env) :
    C.Couples w e e' R (inScope i x) (inScope i' y) := by
  intro u hu s s' o o' hs ho
  have hinner := h u hu s s' o o' hs ho
  simp only [Action.inScope]
  generalize x ⟨s, o, i⟩ = r at hinner ⊢
  generalize y ⟨s', o', i'⟩ = r' at hinner ⊢
  cases hinner with
  | done ht ha hs ho => exact .done ht ha hs ho
  | error err ht hs ho => exact .error err ht hs ho
  | unfinished => exact .unfinished

/-- The program is in the scopes in which it started. -/
theorem couples_scope_bind {f g : Env → Action α} (h : C.Couples w e e' R (f e) (g e')) :
    C.Couples w e e' R (scope >>= f) (scope >>= g) := h

private theorem couples_read (hi : C.env w i i') (name : Token) :
    C.Couples w e e' C.values (read i name) (read i' name) := by
  intro u hu s s' o o' hs ho
  have hget := C.store_get? name.lexeme hs (C.env_mono hu hi)
  simp only [Action.read]
  generalize s.get? i name.lexeme = r at hget ⊢
  generalize s'.get? i' name.lexeme = r' at hget ⊢
  cases hget with
  | some hv => exact .done le_rfl hv hs ho
  | none => exact .error _ le_rfl hs ho

private theorem couples_assign (hi : C.env w i i') (name : Token) {v v' : Value}
    (hv : C.values w v v') :
    C.Couples w e e' (fun _ _ _ => True) (assign i name v) (assign i' name v') := by
  intro u hu s s' o o' hs ho
  have hassign := C.store_assign? name.lexeme hs (C.env_mono hu hi)
    (hv.mono fun _ _ => C.function_mono hu)
  rw [assign_apply, assign_apply]
  dsimp only
  generalize s.assign? i name.lexeme v = r at hassign ⊢
  generalize s'.assign? i' name.lexeme v' = r' at hassign ⊢
  cases hassign with
  | some hs => exact .done le_rfl trivial hs ho
  | none => exact .error _ le_rfl hs ho

private theorem couples_define (hi : C.binds w i i') (name : String) {v v' : Value}
    (hv : C.values w v v') :
    C.Couples w e e' (fun _ _ _ => True) (define i name v) (define i' name v') :=
  fun _ hu _ _ _ _ hs ho => .done le_rfl trivial
    (C.store_define name hs (C.binds_mono hu hi) (hv.mono fun _ _ => C.function_mono hu)) ho

private theorem store_defineAll (hi : C.binds w i i') (names : List Token) {vs vs' : List Value}
    (hvs : List.Forall₂ (C.values w) vs vs') {s s' : Store} (hs : C.store w s s') :
    C.store w (s.defineAll i names vs) (s'.defineAll i' names vs') := by
  induction names generalizing s s' vs vs' with
  | nil => exact hs
  | cons t names ih =>
    cases hvs with
    | nil => exact hs
    | cons hv hvs => exact ih hvs (C.store_define t.lexeme hs hi hv)

private theorem couples_defineAll (hi : C.binds w i i') (names : List Token) {vs vs' : List Value}
    (hvs : List.Forall₂ (C.values w) vs vs') :
    C.Couples w e e' (fun _ _ _ => True) (defineAll i names vs) (defineAll i' names vs') := by
  intro u hu s s' o o' hs ho
  have hvs' := hvs.imp fun _ _ hv => hv.mono fun _ _ => C.function_mono hu
  exact .done le_rfl trivial (store_defineAll (C.binds_mono hu hi) names hvs' hs) ho

theorem couples_openScope (hi : C.env w i i') :
    C.Couples w e e' C.binds (openScope i.chain) (openScope i'.chain) := by
  intro u hu s s' o o' hs ho
  obtain ⟨t, ht, hbinds, hstore⟩ := C.store_openScope hs (C.env_mono hu hi)
  exact .done ht hbinds hstore ho

private theorem couples_newFunction (hi : C.env w i i') (name : Token) (params : List Token)
    (body : List Stmt) :
    C.Couples w e e' C.function (newFunction name params body i) (newFunction name params body i') := by
  intro u hu s s' o o' hs ho
  obtain ⟨t, ht, hf, hstore⟩ := C.store_newFunction name params body hs (C.env_mono hu hi)
  exact .done ht hf hstore ho

private theorem couples_printLine (keyword : Token) (text : String) :
    C.Couples w e e' (fun _ _ _ => True) (printLine keyword text) (printLine keyword text) := by
  intro u hu s s' o o' hs ho
  obtain ⟨houtput, hwritten, hrefusal⟩ := C.output_write (text ++ "\n") ho
  simp only [printLine]
  generalize o.write (text ++ "\n") = r at houtput hwritten hrefusal ⊢
  generalize o'.write (text ++ "\n") = r' at houtput hwritten hrefusal ⊢
  obtain ⟨o, written⟩ := r
  obtain ⟨o', written'⟩ := r'
  cases hwritten
  cases written with
  | true => exact .done le_rfl trivial hs houtput
  | false =>
    have heq : o.refusal = o'.refusal := hrefusal rfl
    dsimp only
    rw [heq]
    exact .error _ le_rfl hs houtput

private theorem couples_apply (op : Token) {result : Except RuntimeFault Value}
    (h : ∀ f, result ≠ .ok (.function f)) :
    C.Couples w e e' C.values (apply op result) (apply op result) := by
  cases result with
  | ok v => exact couples_pure fun _ _ => .of_ne fun f hf => h f (congrArg Except.ok hf)
  | error fault => exact couples_raise op fault

private theorem couples_step (hi : C.env w i i') (op name : Token) :
    C.Couples w e e' (fun _ r r' => r = r') (step i op name) (step i' op name) := by
  unfold step
  split
  · exact couples_raise op _
  · apply (couples_read hi name).bind
    intro u hu v v' hv
    rw [hv.number?_eq]
    split
    · exact couples_raise op _
    · apply (couples_assign (C.env_mono hu hi) name (.number _)).bind
      intro _ _ _ _ _
      exact couples_pure fun _ _ => rfl

/-- Corresponding functions do what corresponds when they are called, wherever that is. -/
def CouplesCalls (C : Coupling World) (calls : Calls) : Prop :=
  ∀ w f f' args args', C.function w f f' → List.Forall₂ (C.values w) args args' →
    ∀ e e', C.Couples w e e' C.values (calls f args) (calls f' args')

variable {calls : Calls}

private theorem couples_callValue (hcalls : C.CouplesCalls calls) (paren : Token)
    {callee callee' : Value} {args args' : List Value} (hcallee : C.values w callee callee')
    (hargs : List.Forall₂ (C.values w) args args') :
    C.Couples w e e' C.values (callValue calls paren callee args)
      (callValue calls paren callee' args') := by
  cases hcallee with
  | @function f f' hf =>
    have harity : f.arity = f'.arity := congrArg List.length (C.code_eq hf).2.1
    simp only [callValue, hargs.length_eq, harity]
    exact (hcalls w f f' args args' hf hargs e e').ite (couples_raise paren _)
  | _ => exact couples_raise paren _

mutual

theorem evaluateWith (hcalls : C.CouplesCalls calls) : (x : Expr) → ∀ {w e e'}, C.env w e e' →
    C.Couples w e e' C.values (evaluateWith calls x) (evaluateWith calls x)
  | .literal l, w, e, e', _ => couples_pure fun _ _ => .ofLiteral l
  | .name t, w, e, e', he => by
    simp only [Evaluation.evaluateWith]
    apply couples_scope_bind
    exact couples_read he t
  | .assign t x, w, e, e', he => by
    simp only [Evaluation.evaluateWith]
    apply (evaluateWith hcalls x he).bind
    intro u hu v v' hv
    apply couples_scope_bind
    apply (couples_assign (C.env_mono hu he) t hv).bind
    intro t ht _ _ _
    exact couples_pure fun r hr => hv.mono fun _ _ => C.function_mono (le_trans ht hr)
  | .group x, w, e, e', he => by
    simp only [Evaluation.evaluateWith]
    exact evaluateWith hcalls x he
  | .unary op x, w, e, e', he => by
    have hoperand := evaluateWith hcalls x he
    simp only [Evaluation.evaluateWith]
    apply Couples.ite
    · cases x with
      | name t =>
        apply couples_scope_bind
        apply (couples_step he op t).bind
        intro _ _ r r' hr
        cases hr
        exact couples_pure fun _ _ => .number r.2
      | _ => exact couples_raise op _
    · apply Couples.ite
      · apply hoperand.bind
        intro u hu v v' hv
        rw [Operator.unary_eq op hv]
        exact couples_apply op (Operator.unary_ne_function op v')
      · exact couples_raise op _
  | .step op t, w, e, e', he => by
    simp only [Evaluation.evaluateWith]
    apply couples_scope_bind
    apply (couples_step he op t).bind
    intro _ _ r r' hr
    cases hr
    exact couples_pure fun _ _ => .number r.1
  | .binary op l r, w, e, e', he => by
    simp only [Evaluation.evaluateWith]
    apply (evaluateWith hcalls l he).bind
    intro u hu v v' hv
    apply (evaluateWith hcalls r (C.env_mono hu he)).bind
    intro t ht x x' hx
    have hv' : C.values t v v' := hv.mono fun _ _ => C.function_mono ht
    rw [Operator.binary_eq (fun _ _ _ _ => C.identity_iff) op hv' hx]
    exact couples_apply op (Operator.binary_ne_function op v' x')
  | .logical op l r, w, e, e', he => by
    simp only [Evaluation.evaluateWith]
    apply (evaluateWith hcalls l he).bind
    intro u hu v v' hv
    simp only [Operator.decides, hv.truthy_eq]
    apply Couples.ite
    · exact couples_pure fun t ht => hv.mono fun _ _ => C.function_mono ht
    · exact evaluateWith hcalls r (C.env_mono hu he)
  | .call callee paren args, w, e, e', he => by
    simp only [Evaluation.evaluateWith]
    apply (evaluateWith hcalls callee he).bind
    intro u hu f f' hf
    apply (evaluateAllWith hcalls args (C.env_mono hu he)).bind
    intro t ht vs vs' hvs
    exact couples_callValue hcalls paren (hf.mono fun _ _ => C.function_mono ht) hvs

theorem evaluateAllWith (hcalls : C.CouplesCalls calls) : (xs : List Expr) → ∀ {w e e'},
    C.env w e e' → C.Couples w e e' (fun u => List.Forall₂ (C.values u)) (evaluateAllWith calls xs)
      (evaluateAllWith calls xs)
  | [], w, e, e', _ => couples_pure fun _ _ => .nil
  | x :: xs, w, e, e', he => by
    simp only [Evaluation.evaluateAllWith]
    apply (evaluateWith hcalls x he).bind
    intro u hu v v' hv
    apply (evaluateAllWith hcalls xs (C.env_mono hu he)).bind
    intro t ht vs vs' hvs
    refine couples_pure fun r hr => .cons ?_ ?_
    · exact hv.mono fun _ _ => C.function_mono (le_trans ht hr)
    · exact hvs.imp fun _ _ h => h.mono fun _ _ => C.function_mono hr

end

theorem couples_flow {flow flow' : Flow} (h : C.flows w flow flow') :
    C.Couples w e e' C.flows (pure flow) (pure flow') := by
  refine couples_pure fun u hu => ?_
  cases h with
  | normal => exact .normal
  | value hv => exact .value (hv.mono fun _ _ => C.function_mono hu)
  | ret hv => exact .ret (hv.mono fun _ _ => C.function_mono hu)

private theorem couples_outward {x y : Action Flow} (h : C.Couples w e e' C.flows x y) :
    C.Couples w e e' C.flows (x >>= fun flow => pure flow.outward)
      (y >>= fun flow => pure flow.outward) := by
  apply h.bind
  intro u hu flow flow' hflow
  exact couples_flow hflow.outward

/-- Goes on behind a statement, unless a `return` is on its way out of it. -/
theorem couples_onward {x y : Action Flow} {next next' : Action Flow}
    (h : C.Couples w e e' C.flows x y) (hnext : C.Couples w e e' C.flows next next') :
    C.Couples w e e' C.flows
      (x >>= fun flow => match flow with | .ret v => pure (.ret v) | _ => next)
      (y >>= fun flow => match flow with | .ret v => pure (.ret v) | _ => next') := by
  apply h.bind
  intro u hu flow flow' hflow
  cases hflow with
  | ret hv => exact couples_flow (.ret hv)
  | normal => exact hnext.of_le hu
  | value hv => exact hnext.of_le hu

private theorem couples_repeatWhile {condition condition' : Action Value} {body body' : Action Flow}
    (hc : C.Couples w e e' C.values condition condition')
    (hb : C.Couples w e e' C.flows body body') (bound : Nat) :
    C.Couples w e e' C.flows (repeatWhile condition body bound)
      (repeatWhile condition' body' bound) := by
  induction bound with
  | zero => exact couples_cutOff
  | succ bound ih =>
    simp only [repeatWhile]
    apply hc.bind
    intro u hu v v' hv
    rw [hv.truthy_eq]
    apply Couples.ite
    · exact couples_onward (hb.of_le hu) (ih.of_le hu)
    · exact couples_flow .normal

mutual

/-- Where the statement may declare a name around it, names can be declared there. -/
theorem executeWith (hcalls : C.CouplesCalls calls) (bound : Nat) : (s : Stmt) → ∀ {w e e'},
    C.env w e e' → (s.exposedDeclarations ≠ [] → C.binds w e e') →
    C.Couples w e e' C.flows (executeWith calls bound s) (executeWith calls bound s)
  | .expression x, w, e, e', he, _ => by
    simp only [Evaluation.executeWith]
    apply (C.evaluateWith hcalls x he).bind
    intro u hu v v' hv
    exact couples_flow (.value hv)
  | .print keyword x, w, e, e', he, _ => by
    simp only [Evaluation.executeWith]
    apply (C.evaluateWith hcalls x he).bind
    intro u hu v v' hv
    rw [hv.text_eq fun _ _ hf => (C.code_eq hf).1]
    apply (couples_printLine keyword v'.text).bind
    intro _ _ _ _ _
    exact couples_flow .normal
  | .var name none, w, e, e', _, hb => by
    simp only [Evaluation.executeWith]
    apply couples_scope_bind
    apply (couples_define (hb (List.cons_ne_nil _ _)) name.lexeme .nil).bind
    intro _ _ _ _ _
    exact couples_flow .normal
  | .var name (some x), w, e, e', he, hb => by
    simp only [Evaluation.executeWith]
    apply (C.evaluateWith hcalls x he).bind
    intro u hu v v' hv
    apply couples_scope_bind
    have hbinds := C.binds_mono hu (hb (List.cons_ne_nil _ _))
    apply (couples_define hbinds name.lexeme hv).bind
    intro _ _ _ _ _
    exact couples_flow .normal
  | .block body, w, e, e', he, _ => by
    simp only [Evaluation.executeWith]
    apply couples_scope_bind
    apply (couples_openScope he).bind
    intro u hu i i' hi
    exact (executeAllWith hcalls bound body hi).inScope e e'
  | .ifThen c yes, w, e, e', he, hb => by
    simp only [Evaluation.executeWith]
    apply (C.evaluateWith hcalls c he).bind
    intro u hu v v' hv
    rw [hv.truthy_eq]
    apply Couples.ite
    · exact couples_outward (executeWith hcalls bound yes (C.env_mono hu he)
        fun h => C.binds_mono hu (hb h))
    · exact couples_flow .normal
  | .ifElse c yes no, w, e, e', he, hb => by
    simp only [Evaluation.executeWith]
    apply (C.evaluateWith hcalls c he).bind
    intro u hu v v' hv
    rw [hv.truthy_eq]
    have hyes : yes.exposedDeclarations ≠ [] → C.binds u e e' :=
      fun h => C.binds_mono hu (hb fun hnil => h (List.append_eq_nil_iff.1 hnil).1)
    have hno : no.exposedDeclarations ≠ [] → C.binds u e e' :=
      fun h => C.binds_mono hu (hb fun hnil => h (List.append_eq_nil_iff.1 hnil).2)
    apply Couples.ite
    · exact couples_outward (executeWith hcalls bound yes (C.env_mono hu he) hyes)
    · exact couples_outward (executeWith hcalls bound no (C.env_mono hu he) hno)
  | .loop c body, w, e, e', he, hb => by
    simp only [Evaluation.executeWith]
    exact couples_repeatWhile (C.evaluateWith hcalls c he) (executeWith hcalls bound body he hb) bound
  | .function name params body, w, e, e', he, hb => by
    simp only [Evaluation.executeWith]
    apply couples_scope_bind
    apply (couples_newFunction he name params body).bind
    intro u hu f f' hf
    apply couples_scope_bind
    have hbinds := C.binds_mono hu (hb (List.cons_ne_nil _ _))
    apply (couples_define hbinds name.lexeme (.function hf)).bind
    intro _ _ _ _ _
    exact couples_flow .normal
  | .ret _ none, w, e, e', _, _ => couples_flow (.ret .nil)
  | .ret _ (some x), w, e, e', he, _ => by
    simp only [Evaluation.executeWith]
    apply (C.evaluateWith hcalls x he).bind
    intro u hu v v' hv
    exact couples_flow (.ret hv)
  | .broken, w, e, e', _, _ => couples_flow .normal

theorem executeAllWith (hcalls : C.CouplesCalls calls) (bound : Nat) : (ss : List Stmt) →
    ∀ {w e e'}, C.binds w e e' →
    C.Couples w e e' C.flows (executeAllWith calls bound ss) (executeAllWith calls bound ss)
  | [], w, e, e', _ => couples_flow .normal
  | s :: ss, w, e, e', hb => by
    simp only [Evaluation.executeAllWith]
    exact couples_onward (executeWith hcalls bound s (C.env_of_binds hb) fun _ => hb)
      (executeAllWith hcalls bound ss hb)

end

theorem call (C : Coupling World) (bound : Nat) : C.CouplesCalls (call bound) := by
  induction bound with
  | zero =>
    intro w f f' args args' _ _ e e'
    exact couples_cutOff
  | succ bound ih =>
    intro w f f' args args' hf hargs e e'
    obtain ⟨-, hparams, hbody⟩ := C.code_eq hf
    simp only [Evaluation.call, hparams, hbody]
    apply (couples_openScope (C.env_closure hf)).bind
    intro u hu i i' hi
    apply (couples_defineAll hi _ (hargs.imp fun _ _ h => h.mono fun _ _ => C.function_mono hu)).bind
    intro t ht _ _ _
    apply ((executeAllWith ih bound f'.body (C.binds_mono ht hi)).inScope e e').bind
    intro r hr flow flow' hflow
    exact couples_pure fun v hv => hflow.result.mono fun _ _ => C.function_mono hv

end Coupling

end Scriptlet
