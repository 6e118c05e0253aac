import Scriptlet.Proofs.Scope.StoredFunctions
import Scriptlet.Session

namespace Scriptlet

open Evaluation

namespace Stmt

mutual

/-- All names that are declared in the statement at any depth, parameters included. -/
def declarations : Stmt → List Token
  | .var name _ => [name]
  | .function name params body => name :: (params ++ declarationsAll body)
  | .block body => declarationsAll body
  | .ifThen _ yes => declarations yes
  | .ifElse _ yes no => declarations yes ++ declarations no
  | .loop _ body => declarations body
  | .expression _ | .print .. | .ret .. | .broken => []

def declarationsAll : List Stmt → List Token
  | [] => []
  | s :: ss => declarations s ++ declarationsAll ss

end

end Stmt

def Function.declarations (f : Function) : List Token := f.params ++ Stmt.declarationsAll f.body

/-- What evaluation needs of a monad. All of it is about the current scope. -/
structure Instrument (M : Type → Type) where
  read : Token → M Value
  assign : Token → Value → M Unit
  define : Token → Value → M Unit
  /-- Makes a function and binds its name. -/
  declare : Token → List Token → List Stmt → M Unit
  print : Token → String → M Unit
  raise : {α : Type} → Token → RuntimeFault → M α
  cutOff : {α : Type} → M α
  /-- What a broken statement does. -/
  broken : M Flow
  /-- Runs the statements of a block in a scope of their own. -/
  inBlock : M Flow → M Flow
  /-- Runs the body of a function in a scope of its own, in which the parameters are bound. -/
  inCall : Function → List Value → M Flow → M Flow

namespace Instrument

section Evaluation

variable {M : Type → Type} [Monad M] (P : Instrument M)

def apply (op : Token) : Except RuntimeFault Value → M Value
  | .ok v => pure v
  | .error fault => P.raise op fault

def step (op name : Token) : M (Float × Float) :=
  match Operator.stepSize? op.kind with
  | none => P.raise op (.invalidOperator op.lexeme)
  | some size => do
    match (← P.read name).number? with
    | none => P.raise op .operandNotNumber
    | some old =>
      P.assign name (.number (old + size))
      pure (old, old + size)

def callValue (calls : Function → List Value → M Value) (paren : Token) (callee : Value)
    (args : List Value) : M Value :=
  match callee with
  | .function f =>
    if args.length = f.arity then calls f args
    else P.raise paren (.wrongArity f.arity args.length)
  | _ => P.raise paren .notCallable

mutual

def evaluateWith (calls : Function → List Value → M Value) : Expr → M Value
  | .literal l => pure (.ofLiteral l)
  | .name t => P.read t
  | .assign t e => do
    let v ← evaluateWith calls e
    P.assign t v
    pure v
  | .group e => evaluateWith calls e
  | .unary op e =>
    if op.kind.isStep then
      match e with
      | .name t => do return .number (← P.step op t).2
      | _ => P.raise op (.invalidStepTarget op.lexeme)
    else if Operator.isUnary op.kind then do
      let v ← evaluateWith calls e
      P.apply op (Operator.unary op v)
    else P.raise op (.invalidOperator op.lexeme)
  | .step op t => do return .number (← P.step op t).1
  | .binary op l r => do
    let v ← evaluateWith calls l
    let w ← evaluateWith calls r
    P.apply op (Operator.binary op v w)
  | .logical op l r => do
    let v ← evaluateWith calls l
    if Operator.decides op v then pure v else evaluateWith calls r
  | .call callee paren args => do
    let f ← evaluateWith calls callee
    let vs ← evaluateAllWith calls args
    P.callValue calls paren f vs

def evaluateAllWith (calls : Function → List Value → M Value) : List Expr → M (List Value)
  | [] => pure []
  | e :: es => do
    let v ← evaluateWith calls e
    let vs ← evaluateAllWith calls es
    pure (v :: vs)

end

def repeatWhile (condition : M Value) (body : M Flow) : Nat → M Flow
  | 0 => P.cutOff
  | bound + 1 => do
    if (← condition).truthy then
      match ← body with
      | .ret v => pure (.ret v)
      | _ => repeatWhile condition body bound
    else pure .normal

mutual

def executeWith (calls : Function → List Value → M Value) (bound : Nat) : Stmt → M Flow
  | .expression e => do return .value (← P.evaluateWith calls e)
  | .print keyword e => do
    let v ← P.evaluateWith calls e
    P.print keyword v.text
    pure .normal
  | .var name none => do
    P.define name .nil
    pure .normal
  | .var name (some e) => do
    let v ← P.evaluateWith calls e
    P.define name v
    pure .normal
  | .block body => P.inBlock (executeAllWith calls bound body)
  | .ifThen c yes => do
    if (← P.evaluateWith calls c).truthy then return (← executeWith calls bound yes).outward
    else pure .normal
  | .ifElse c yes no => do
    if (← P.evaluateWith calls c).truthy then return (← executeWith calls bound yes).outward
    else return (← executeWith calls bound no).outward
  | .loop c body => P.repeatWhile (P.evaluateWith calls c) (executeWith calls bound body) bound
  | .function name params body => do
    P.declare name params body
    pure .normal
  | .ret _ none => pure (.ret .nil)
  | .ret _ (some e) => do return .ret (← P.evaluateWith calls e)
  | .broken => P.broken

def executeAllWith (calls : Function → List Value → M Value) (bound : Nat) : List Stmt → M Flow
  | [] => pure .normal
  | s :: ss => do
    match ← executeWith calls bound s with
    | .ret v => pure (.ret v)
    | _ => executeAllWith calls bound ss

end

def call : Nat → Function → List Value → M Value
  | 0, _, _ => P.cutOff
  | bound + 1, f, args => do
    return (← P.inCall f args (P.executeAllWith (call bound) bound f.body)).result

def executeTop (bound : Nat) (last : Flow) : List Stmt → M Flow
  | [] => pure last
  | s :: ss => do
    match ← P.executeWith (P.call bound) bound s with
    | .ret v => pure (.ret v)
    | flow => executeTop bound flow ss

end Evaluation

section Plain

/-- The actions of evaluation, in the current scope. -/
def plain : Instrument Action where
  read name := do Action.read (← .scope) name
  assign name v := do Action.assign (← .scope) name v
  define name v := do Action.define (← .scope) name.lexeme v
  declare name params body := do
    let f ← Action.newFunction name params body (← .scope)
    Action.define (← .scope) name.lexeme (.function f)
  print := Action.printLine
  raise := Action.raise
  cutOff := Action.cutOff
  broken := pure .normal
  inBlock x := do
    let inner ← Action.openScope (← Action.scope).chain
    Action.inScope inner x
  inCall f args x := do
    let env ← Action.openScope f.closure.chain
    Action.defineAll env f.params args
    Action.inScope env x

private theorem plain_apply (op : Token) (result : Except RuntimeFault Value) :
    plain.apply op result = Evaluation.apply op result := by
  cases result <;> rfl

/-- A step reads and assigns in the same scope. -/
theorem plain_step (op name : Token) :
    plain.step op name = Action.scope >>= fun env => Evaluation.step env op name := by
  funext m
  simp only [step, Evaluation.step, plain]
  cases Operator.stepSize? op.kind with
  | none => rfl
  | some size =>
    simp only [Action.bind_apply, Action.scope, Action.read]
    cases m.store.get? m.scope name.lexeme with
    | none => rfl
    | some v =>
      dsimp only
      cases v.number? with
      | none => rfl
      | some old => rfl

private theorem plain_callValue (calls : Calls) (paren : Token) (callee : Value)
    (args : List Value) :
    plain.callValue calls paren callee args = Evaluation.callValue calls paren callee args := by
  cases callee <;> rfl

variable (calls : Calls) (bound : Nat)

mutual

private theorem plain_evaluateWith : (e : Expr) →
    plain.evaluateWith calls e = Evaluation.evaluateWith calls e
  | .literal _ => rfl
  | .name _ => rfl
  | .assign t e => by
    simp only [evaluateWith, Evaluation.evaluateWith, plain_evaluateWith e]
    simp only [plain, bind_assoc]
  | .group e => plain_evaluateWith e
  | .unary op e => by
    simp only [evaluateWith, Evaluation.evaluateWith, plain_evaluateWith e, plain_step, plain_apply,
      bind_assoc]
    rfl
  | .step op t => by
    simp only [evaluateWith, Evaluation.evaluateWith, plain_step, bind_assoc]
  | .binary op l r => by
    simp only [evaluateWith, Evaluation.evaluateWith, plain_evaluateWith l, plain_evaluateWith r,
      plain_apply]
  | .logical op l r => by
    simp only [evaluateWith, Evaluation.evaluateWith, plain_evaluateWith l, plain_evaluateWith r]
  | .call callee paren args => by
    simp only [evaluateWith, Evaluation.evaluateWith, plain_evaluateWith callee,
      plain_evaluateAllWith args, plain_callValue]

private theorem plain_evaluateAllWith : (es : List Expr) →
    plain.evaluateAllWith calls es = Evaluation.evaluateAllWith calls es
  | [] => rfl
  | e :: es => by
    simp only [evaluateAllWith, Evaluation.evaluateAllWith, plain_evaluateWith e,
      plain_evaluateAllWith es]

end

private theorem plain_repeatWhile (condition : Action Value) (body : Action Flow) (n : Nat) :
    plain.repeatWhile condition body n = Evaluation.repeatWhile condition body n := by
  induction n with
  | zero => rfl
  | succ n ih =>
    simp only [repeatWhile, ih]
    rfl

mutual

private theorem plain_executeWith : (s : Stmt) →
    plain.executeWith calls bound s = Evaluation.executeWith calls bound s
  | .expression e => by
    simp only [executeWith, Evaluation.executeWith, plain_evaluateWith]
  | .print keyword e => by
    simp only [executeWith, Evaluation.executeWith, plain_evaluateWith]
    rfl
  | .var name none => by
    simp only [executeWith, Evaluation.executeWith, plain, bind_assoc]
  | .var name (some e) => by
    simp only [executeWith, Evaluation.executeWith, plain_evaluateWith]
    simp only [plain, bind_assoc]
  | .block body => by
    simp only [executeWith, Evaluation.executeWith, plain_executeAllWith body]
    rfl
  | .ifThen c yes => by
    simp only [executeWith, Evaluation.executeWith, plain_evaluateWith, plain_executeWith yes]
  | .ifElse c yes no => by
    simp only [executeWith, Evaluation.executeWith, plain_evaluateWith, plain_executeWith yes,
      plain_executeWith no]
  | .loop c body => by
    simp only [executeWith, Evaluation.executeWith, plain_evaluateWith, plain_executeWith body,
      plain_repeatWhile]
  | .function name params body => by
    simp only [executeWith, Evaluation.executeWith, plain, bind_assoc]
  | .ret _ none => rfl
  | .ret _ (some e) => by
    simp only [executeWith, Evaluation.executeWith, plain_evaluateWith]
  | .broken => rfl

private theorem plain_executeAllWith : (ss : List Stmt) →
    plain.executeAllWith calls bound ss = Evaluation.executeAllWith calls bound ss
  | [] => rfl
  | s :: ss => by
    simp only [executeAllWith, plain_executeWith s, plain_executeAllWith ss]
    rfl

end

private theorem plain_call : plain.call bound = Evaluation.call bound := by
  induction bound with
  | zero => rfl
  | succ bound ih =>
    funext f args
    simp only [call, Evaluation.call, ih, plain_executeAllWith]
    simp only [plain, bind_assoc]

theorem plain_executeTop (last : Flow) (ss : List Stmt) :
    plain.executeTop bound last ss = Session.executeTop bound last ss := by
  induction ss generalizing last with
  | nil => rfl
  | cons s ss ih =>
    simp only [executeTop, plain_executeWith, plain_call, ih]
    rfl

end Plain

/-- What is put together from related parts is related, for all programs or, if `wellFormed`, for
those without broken statements and with operators in their places. -/
structure Relates {M N : Type → Type} [Monad M] [Monad N] (P : Instrument M) (Q : Instrument N)
    (wellFormed : Prop) {C : Type} (allows : C → Token → Prop)
    (R : C → (α : Type) → (α → Prop) → M α → N α → Prop) : Prop where
  pure {α : Type} {ok : α → Prop} (c : C) {a : α} : (wellFormed → ok a) →
    R c α ok (pure a) (pure a)
  bind {α β : Type} {ok : α → Prop} {ok' : β → Prop} {c : C} {x : M α} {y : N α} {f : α → M β}
    {g : α → N β} : R c α ok x y → (∀ a, (wellFormed → ok a) → R c β ok' (f a) (g a)) →
    R c β ok' (x >>= f) (y >>= g)
  read (c : C) (name : Token) : R c Value Value.Sound (P.read name) (Q.read name)
  assign (c : C) (name : Token) {v : Value} : (wellFormed → v.Sound) →
    R c Unit (fun _ => True) (P.assign name v) (Q.assign name v)
  define {c : C} {name : Token} {v : Value} : allows c name → (wellFormed → v.Sound) →
    R c Unit (fun _ => True) (P.define name v) (Q.define name v)
  declare {c : C} {name : Token} {params : List Token} {body : List Stmt} :
    (∀ t ∈ (Stmt.function name params body).declarations, allows c t) →
    (wellFormed → ∀ s ∈ body, s.WellFormed) →
    R c Unit (fun _ => True) (P.declare name params body) (Q.declare name params body)
  print (c : C) (keyword : Token) (text : String) :
    R c Unit (fun _ => True) (P.print keyword text) (Q.print keyword text)
  raise {α : Type} {ok : α → Prop} (c : C) (token : Token) {fault : RuntimeFault} :
    (wellFormed → fault.isOperatorFault = false) → R c α ok (P.raise token fault) (Q.raise token fault)
  cutOff {α : Type} {ok : α → Prop} (c : C) : R c α ok P.cutOff Q.cutOff
  broken (c : C) : ¬wellFormed → R c Flow Flow.Sound P.broken Q.broken
  inBlock {c : C} {x : M Flow} {y : N Flow} : R c Flow Flow.Sound x y →
    R c Flow Flow.Sound (P.inBlock x) (Q.inBlock y)
  inCall {f : Function} {x : M Flow} {y : N Flow} (c : C) {args : List Value} :
    (wellFormed → ∀ v ∈ args, v.Sound) →
    (∀ c, (∀ t ∈ f.declarations, allows c t) → R c Flow Flow.Sound x y) →
    R c Flow Flow.Sound (P.inCall f args x) (Q.inCall f args y)

namespace Relates

variable {M N : Type → Type} {P : Instrument M} {Q : Instrument N} {wellFormed : Prop} {C : Type}
  {R : C → (α : Type) → (α → Prop) → M α → N α → Prop}

/-- How far the second run may go: just as far as the first one, or, if a run that is cut off is related
to any run, as far as that or further. -/
def Reaches (P : Instrument M) (R : C → (α : Type) → (α → Prop) → M α → N α → Prop)
    (bound bound' : Nat) : Prop :=
  bound = bound' ∨ bound ≤ bound' ∧ ∀ c α ok y, R c α ok P.cutOff y

private theorem Reaches.of_succ {bound bound' : Nat} (h : Reaches P R (bound + 1) bound') :
    ∃ n, bound' = n + 1 ∧ Reaches P R bound n := by
  rcases h with rfl | ⟨hle, hcut⟩
  · exact ⟨bound, rfl, .inl rfl⟩
  · obtain ⟨n, rfl⟩ := Nat.exists_eq_succ_of_ne_zero (Nat.ne_of_gt (Nat.zero_lt_of_lt hle))
    exact ⟨n, rfl, .inr ⟨Nat.le_of_succ_le_succ hle, hcut⟩⟩

/-- The calls that a program makes are related, in whatever context. -/
def OfCalls (wellFormed : Prop) (R : C → (α : Type) → (α → Prop) → M α → N α → Prop)
    (calls : Function → List Value → M Value) (calls' : Function → List Value → N Value) : Prop :=
  ∀ c f args, (wellFormed → f.WellFormed) → (wellFormed → ∀ v ∈ args, v.Sound) →
    R c Value Value.Sound (calls f args) (calls' f args)

theorem ite {α : Type} {ok : α → Prop} {c : C} {p : Prop} [Decidable p] {x x' : M α} {y y' : N α}
    (hx : R c α ok x y) (hx' : R c α ok x' y') :
    R c α ok (if p then x else x') (if p then y else y') := by
  split
  · exact hx
  · exact hx'

variable [Monad M] [Monad N] {allows : C → Token → Prop} (h : Relates P Q wellFormed allows R)
  {calls : Function → List Value → M Value} {calls' : Function → List Value → N Value}

include h

theorem apply (c : C) (op : Token) {result : Except RuntimeFault Value}
    (hresult : wellFormed → Operator.Delivers result) :
    R c Value Value.Sound (P.apply op result) (Q.apply op result) := by
  cases result with
  | ok v => exact h.pure c fun hwell => .of_ne (hresult hwell)
  | error fault => exact h.raise c op hresult

/-- What the value of an operand is decides whether a step can be made, and never the operator. -/
theorem step (c : C) {op : Token} (hop : wellFormed → op.kind.isStep = true) (name : Token) :
    R c (Float × Float) (fun _ => True) (P.step op name) (Q.step op name) := by
  unfold Instrument.step
  split
  · next hnone =>
    apply h.raise c op
    intro hwell
    have hsize := hop hwell
    rw [← Operator.isSome_stepSize?, hnone] at hsize
    cases hsize
  · apply h.bind (h.read c name)
    intro v _
    split
    · exact h.raise c op fun _ => rfl
    · apply h.bind (h.assign c name fun _ => Value.sound_number _)
      intro _ _
      exact h.pure c fun _ => trivial

theorem callValue (hcalls : OfCalls wellFormed R calls calls') (c : C) (paren : Token)
    {callee : Value} {args : List Value} (hcallee : wellFormed → callee.Sound)
    (hargs : wellFormed → ∀ v ∈ args, v.Sound) : R c Value Value.Sound
      (P.callValue calls paren callee args) (Q.callValue calls' paren callee args) := by
  cases callee with
  | function f =>
    exact ite (hcalls c f args (fun hwell => hcallee hwell f rfl) hargs) (h.raise c paren fun _ => rfl)
  | _ => exact h.raise c paren fun _ => rfl

mutual

theorem evaluateWith (hcalls : OfCalls wellFormed R calls calls') (c : C) : (e : Expr) →
    (wellFormed → e.Operable) →
    R c Value Value.Sound (P.evaluateWith calls e) (Q.evaluateWith calls' e)
  | .literal l, _ => h.pure c fun _ => Value.sound_ofLiteral l
  | .name t, _ => h.read c t
  | .assign t e, he => by
    simp only [Expr.Operable] at he
    apply h.bind (evaluateWith hcalls c e he)
    intro v hv
    apply h.bind (h.assign c t hv)
    intro _ _
    exact h.pure c hv
  | .group e, he => by
    simp only [Expr.Operable] at he
    exact evaluateWith hcalls c e he
  | .unary op e, he => by
    simp only [Expr.Operable] at he
    have hoperand := evaluateWith hcalls c e fun hwell => (he hwell).2
    simp only [Instrument.evaluateWith]
    by_cases hstep : op.kind.isStep = true
    · simp only [if_pos hstep] at he ⊢
      cases e with
      | name t =>
        apply h.bind (h.step c (fun _ => hstep) t)
        intro r _
        exact h.pure c fun _ => Value.sound_number r.2
      | _ => exact h.raise c op fun hwell => nomatch (he hwell).1
    · simp only [if_neg hstep] at he ⊢
      by_cases hop : Operator.isUnary op.kind = true
      · simp only [if_pos hop]
        apply h.bind hoperand
        intro v _
        exact h.apply c op fun _ => Operator.delivers_unary hop v
      · simp only [if_neg hop]
        exact h.raise c op fun hwell => absurd (he hwell).1 hop
  | .step op t, he => by
    simp only [Expr.Operable] at he
    apply h.bind (h.step c he t)
    intro r _
    exact h.pure c fun _ => Value.sound_number r.1
  | .binary op l r, he => by
    simp only [Expr.Operable] at he
    apply h.bind (evaluateWith hcalls c l fun hwell => (he hwell).2.1)
    intro v _
    apply h.bind (evaluateWith hcalls c r fun hwell => (he hwell).2.2)
    intro w _
    exact h.apply c op fun hwell => Operator.delivers_binary (he hwell).1 v w
  | .logical op l r, he => by
    simp only [Expr.Operable] at he
    apply h.bind (evaluateWith hcalls c l fun hwell => (he hwell).2.1)
    intro v hv
    exact ite (h.pure c hv) (evaluateWith hcalls c r fun hwell => (he hwell).2.2)
  | .call callee paren args, he => by
    simp only [Expr.Operable] at he
    apply h.bind (evaluateWith hcalls c callee fun hwell => (he hwell).1)
    intro f hf
    apply h.bind (evaluateAllWith hcalls c args fun hwell => (he hwell).2)
    intro vs hvs
    exact h.callValue hcalls c paren hf hvs

theorem evaluateAllWith (hcalls : OfCalls wellFormed R calls calls') (c : C) : (es : List Expr) →
    (wellFormed → Expr.OperableAll es) → R c (List Value) (fun vs => ∀ v ∈ vs, v.Sound)
      (P.evaluateAllWith calls es) (Q.evaluateAllWith calls' es)
  | [], _ => h.pure c fun _ => List.forall_mem_nil _
  | e :: es, he => by
    simp only [Expr.OperableAll] at he
    apply h.bind (evaluateWith hcalls c e fun hwell => (he hwell).1)
    intro v hv
    apply h.bind (evaluateAllWith hcalls c es fun hwell => (he hwell).2)
    intro vs hvs
    exact h.pure c fun hwell => List.forall_mem_cons.2 ⟨hv hwell, hvs hwell⟩

end

/-- Goes on behind a statement, unless a `return` is on its way out of it. -/
theorem onward {c : C} {x next : M Flow} {y next' : N Flow} (hx : R c Flow Flow.Sound x y)
    (hnext : R c Flow Flow.Sound next next') :
    R c Flow Flow.Sound
      (x >>= fun flow => match flow with | .ret v => Pure.pure (.ret v) | _ => next)
      (y >>= fun flow => match flow with | .ret v => Pure.pure (.ret v) | _ => next') := by
  apply h.bind hx
  intro flow hflow
  cases flow with
  | ret v => exact h.pure c hflow
  | normal => exact hnext
  | value v => exact hnext

theorem outward {c : C} {x : M Flow} {y : N Flow} (hx : R c Flow Flow.Sound x y) :
    R c Flow Flow.Sound (x >>= fun flow => Pure.pure flow.outward)
      (y >>= fun flow => Pure.pure flow.outward) := by
  apply h.bind hx
  intro flow hflow
  exact h.pure c fun hwell => (hflow hwell).outward

theorem repeatWhile {c : C} {condition : M Value} {condition' : N Value} {body : M Flow}
    {body' : N Flow} (hc : R c Value Value.Sound condition condition')
    (hb : R c Flow Flow.Sound body body') {bound : Nat} :
    ∀ {bound' : Nat}, Reaches P R bound bound' → R c Flow Flow.Sound
      (P.repeatWhile condition body bound) (Q.repeatWhile condition' body' bound') := by
  induction bound with
  | zero =>
    rintro bound' (rfl | ⟨-, hcut⟩)
    · exact h.cutOff c
    · exact hcut c Flow _ _
  | succ bound ih =>
    intro bound' hreaches
    obtain ⟨n, rfl, hn⟩ := hreaches.of_succ
    apply h.bind hc
    intro v _
    exact ite (h.onward hb (ih hn)) (h.pure c fun _ => trivial)

mutual

theorem executeWith (hcalls : OfCalls wellFormed R calls calls') {bound bound' : Nat}
    (hreaches : Reaches P R bound bound') (c : C) : (s : Stmt) → (∀ t ∈ s.declarations, allows c t) →
    (wellFormed → s.Every Expr.Operable False) →
    R c Flow Flow.Sound (P.executeWith calls bound s) (Q.executeWith calls' bound' s)
  | .expression e, _, hs => by
    simp only [Stmt.Every] at hs
    apply h.bind (h.evaluateWith hcalls c e hs)
    intro v hv
    exact h.pure c hv
  | .print keyword e, _, hs => by
    simp only [Stmt.Every] at hs
    apply h.bind (h.evaluateWith hcalls c e hs)
    intro v _
    apply h.bind (h.print c keyword _)
    intro _ _
    exact h.pure c fun _ => trivial
  | .var name none, hn, _ => by
    apply h.bind (h.define (hn name List.mem_cons_self) fun _ => Value.sound_nil)
    intro _ _
    exact h.pure c fun _ => trivial
  | .var name (some e), hn, hs => by
    simp only [Stmt.Every] at hs
    apply h.bind (h.evaluateWith hcalls c e hs)
    intro v hv
    apply h.bind (h.define (hn name List.mem_cons_self) hv)
    intro _ _
    exact h.pure c fun _ => trivial
  | .block body, hn, hs => by
    simp only [Stmt.Every] at hs
    exact h.inBlock (executeAllWith hcalls hreaches c body hn hs)
  | .ifThen e yes, hn, hs => by
    simp only [Stmt.Every] at hs
    apply h.bind (h.evaluateWith hcalls c e fun hwell => (hs hwell).1)
    intro v _
    have hyes := executeWith hcalls hreaches c yes hn fun hwell => (hs hwell).2
    exact ite (h.outward hyes) (h.pure c fun _ => trivial)
  | .ifElse e yes no, hn, hs => by
    obtain ⟨hnyes, hnno⟩ := List.forall_mem_append.1 hn
    simp only [Stmt.Every] at hs
    apply h.bind (h.evaluateWith hcalls c e fun hwell => (hs hwell).1)
    intro v _
    have hyes := executeWith hcalls hreaches c yes hnyes fun hwell => (hs hwell).2.1
    have hno := executeWith hcalls hreaches c no hnno fun hwell => (hs hwell).2.2
    exact ite (h.outward hyes) (h.outward hno)
  | .loop e body, hn, hs => by
    simp only [Stmt.Every] at hs
    have hcondition := h.evaluateWith hcalls c e fun hwell => (hs hwell).1
    have hbody := executeWith hcalls hreaches c body hn fun hwell => (hs hwell).2
    exact h.repeatWhile hcondition hbody hreaches
  | .function name params body, hn, hs => by
    simp only [Stmt.Every] at hs
    apply h.bind (h.declare hn fun hwell => Stmt.everyIn_iff.1 (hs hwell))
    intro _ _
    exact h.pure c fun _ => trivial
  | .ret _ none, _, _ => h.pure c fun _ => Value.sound_nil
  | .ret _ (some e), _, hs => by
    simp only [Stmt.Every] at hs
    apply h.bind (h.evaluateWith hcalls c e hs)
    intro v hv
    exact h.pure c hv
  | .broken, _, hs => h.broken c hs

theorem executeAllWith (hcalls : OfCalls wellFormed R calls calls') {bound bound' : Nat}
    (hreaches : Reaches P R bound bound') (c : C) : (ss : List Stmt) →
    (∀ t ∈ Stmt.declarationsAll ss, allows c t) →
    (wellFormed → Stmt.EveryIn Expr.Operable False ss) →
    R c Flow Flow.Sound (P.executeAllWith calls bound ss) (Q.executeAllWith calls' bound' ss)
  | [], _, _ => h.pure c fun _ => trivial
  | s :: ss, hn, hs => by
    obtain ⟨hnfirst, hnrest⟩ := List.forall_mem_append.1 hn
    simp only [Stmt.EveryIn] at hs
    exact h.onward (executeWith hcalls hreaches c s hnfirst fun hwell => (hs hwell).1)
      (executeAllWith hcalls hreaches c ss hnrest fun hwell => (hs hwell).2)

end

theorem call {bound : Nat} : ∀ {bound' : Nat}, Reaches P R bound bound' →
    OfCalls wellFormed R (P.call bound) (Q.call bound') := by
  induction bound with
  | zero =>
    rintro bound' (rfl | ⟨-, hcut⟩) c f args _ _
    · exact h.cutOff c
    · exact hcut c Value _ _
  | succ bound ih =>
    intro bound' hreaches c f args hf hargs
    obtain ⟨n, rfl, hn⟩ := hreaches.of_succ
    have hbody : ∀ c, (∀ t ∈ f.declarations, allows c t) → R c Flow Flow.Sound
        (P.executeAllWith (P.call bound) bound f.body) (Q.executeAllWith (Q.call n) n f.body) := by
      intro c hnames
      exact h.executeAllWith (ih hn) hn c f.body (List.forall_mem_append.1 hnames).2
        fun hwell => Stmt.everyIn_iff.2 (hf hwell)
    apply h.bind (h.inCall c hargs hbody)
    intro flow hflow
    exact h.pure c fun hwell => (hflow hwell).result

theorem executeTop {bound bound' : Nat} (hreaches : Reaches P R bound bound') (c : C) {last : Flow}
    (hlast : wellFormed → last.Sound) {ss : List Stmt}
    (hn : ∀ t ∈ Stmt.declarationsAll ss, allows c t) (hs : wellFormed → ∀ s ∈ ss, s.WellFormed) :
    R c Flow Flow.Sound (P.executeTop bound last ss) (Q.executeTop bound' last ss) := by
  induction ss generalizing last with
  | nil => exact h.pure c hlast
  | cons s ss ih =>
    obtain ⟨hnfirst, hnrest⟩ := List.forall_mem_append.1 hn
    have hfirst : wellFormed → s.WellFormed := fun hwell => hs hwell s List.mem_cons_self
    have hrest : wellFormed → ∀ s ∈ ss, s.WellFormed := fun hwell => (List.forall_mem_cons.1 (hs hwell)).2
    apply h.bind (h.executeWith (h.call hreaches) hreaches c s hnfirst hfirst)
    intro flow hflow
    cases flow with
    | ret v => exact h.pure c hflow
    | normal => exact ih hflow hnrest hrest
    | value v => exact ih hflow hnrest hrest

end Relates

end Instrument

end Scriptlet
