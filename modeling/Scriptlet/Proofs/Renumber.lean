import Scriptlet.Evaluation.Operator
import Scriptlet.Session

namespace Scriptlet

namespace Token

def renumber (g : Nat → Nat) (t : Token) : Token := { t with line := g t.line }

@[simp] theorem kind_renumber (g : Nat → Nat) (t : Token) : (t.renumber g).kind = t.kind := rfl

@[simp] theorem lexeme_renumber (g : Nat → Nat) (t : Token) : (t.renumber g).lexeme = t.lexeme := rfl

@[simp] theorem renumber_id (t : Token) : t.renumber id = t := rfl

@[simp] theorem renumber_renumber (g h : Nat → Nat) (t : Token) :
    (t.renumber g).renumber h = t.renumber (h ∘ g) := rfl

end Token

namespace Expr

mutual

def renumber (g : Nat → Nat) : Expr → Expr
  | .literal l => .literal l
  | .name t => .name (t.renumber g)
  | .assign t e => .assign (t.renumber g) (renumber g e)
  | .group e => .group (renumber g e)
  | .unary op e => .unary (op.renumber g) (renumber g e)
  | .step op t => .step (op.renumber g) (t.renumber g)
  | .binary op l r => .binary (op.renumber g) (renumber g l) (renumber g r)
  | .logical op l r => .logical (op.renumber g) (renumber g l) (renumber g r)
  | .call callee paren args => .call (renumber g callee) (paren.renumber g) (renumberAll g args)

def renumberAll (g : Nat → Nat) : List Expr → List Expr
  | [] => []
  | e :: es => renumber g e :: renumberAll g es

end

theorem renumberAll_eq_map (g : Nat → Nat) (es : List Expr) :
    renumberAll g es = es.map (renumber g) := by
  induction es with
  | nil => rfl
  | cons e es ih => rw [renumberAll, ih, List.map_cons]

mutual

@[simp] theorem renumber_id : (e : Expr) → e.renumber id = e
  | .literal _ | .name _ | .step _ _ => rfl
  | .assign _ e | .group e | .unary _ e => by simp [renumber, renumber_id e]
  | .binary _ l r | .logical _ l r => by simp [renumber, renumber_id l, renumber_id r]
  | .call callee _ args => by simp [renumber, renumber_id callee, renumberAll_id args]

@[simp] theorem renumberAll_id : (es : List Expr) → renumberAll id es = es
  | [] => rfl
  | e :: es => by simp [renumberAll, renumber_id e, renumberAll_id es]

end

mutual

@[simp] theorem renumber_renumber (g h : Nat → Nat) : (e : Expr) →
    (e.renumber g).renumber h = e.renumber (h ∘ g)
  | .literal _ | .name _ | .step _ _ => rfl
  | .assign _ e | .group e | .unary _ e => by simp [renumber, renumber_renumber g h e]
  | .binary _ l r | .logical _ l r => by
    simp [renumber, renumber_renumber g h l, renumber_renumber g h r]
  | .call callee _ args => by
    simp [renumber, renumber_renumber g h callee, renumberAll_renumberAll g h args]

@[simp] theorem renumberAll_renumberAll (g h : Nat → Nat) : (es : List Expr) →
    renumberAll h (renumberAll g es) = renumberAll (h ∘ g) es
  | [] => rfl
  | e :: es => by simp [renumberAll, renumber_renumber g h e, renumberAll_renumberAll g h es]

end

end Expr

namespace Stmt

mutual

def renumber (g : Nat → Nat) : Stmt → Stmt
  | .expression e => .expression (e.renumber g)
  | .print keyword e => .print (keyword.renumber g) (e.renumber g)
  | .var name init => .var (name.renumber g) (init.map (Expr.renumber g))
  | .block body => .block (renumberAll g body)
  | .ifThen c yes => .ifThen (c.renumber g) (renumber g yes)
  | .ifElse c yes no => .ifElse (c.renumber g) (renumber g yes) (renumber g no)
  | .loop c body => .loop (c.renumber g) (renumber g body)
  | .function name params body =>
    .function (name.renumber g) (params.map (Token.renumber g)) (renumberAll g body)
  | .ret keyword value => .ret (keyword.renumber g) (value.map (Expr.renumber g))
  | .broken => .broken

def renumberAll (g : Nat → Nat) : List Stmt → List Stmt
  | [] => []
  | s :: ss => renumber g s :: renumberAll g ss

end

theorem renumberAll_eq_map (g : Nat → Nat) (ss : List Stmt) :
    renumberAll g ss = ss.map (renumber g) := by
  induction ss with
  | nil => rfl
  | cons s ss ih => rw [renumberAll, ih, List.map_cons]

mutual

@[simp] theorem renumber_id : (s : Stmt) → s.renumber id = s
  | .expression _ | .print _ _ | .broken => by simp [renumber]
  | .var _ init | .ret _ init => by cases init <;> simp [renumber]
  | .block body => by simp [renumber, renumberAll_id body]
  | .ifThen _ yes => by simp [renumber, renumber_id yes]
  | .ifElse _ yes no => by simp [renumber, renumber_id yes, renumber_id no]
  | .loop _ body => by simp [renumber, renumber_id body]
  | .function _ params body => by
    have hparams : params.map (Token.renumber id) = params := List.map_id params
    simp [renumber, hparams, renumberAll_id body]

@[simp] theorem renumberAll_id : (ss : List Stmt) → renumberAll id ss = ss
  | [] => rfl
  | s :: ss => by simp [renumberAll, renumber_id s, renumberAll_id ss]

end

mutual

@[simp] theorem renumber_renumber (g h : Nat → Nat) : (s : Stmt) →
    (s.renumber g).renumber h = s.renumber (h ∘ g)
  | .expression _ | .print _ _ | .broken => by simp [renumber]
  | .var _ init | .ret _ init => by cases init <;> simp [renumber]
  | .block body => by simp [renumber, renumberAll_renumberAll g h body]
  | .ifThen _ yes => by simp [renumber, renumber_renumber g h yes]
  | .ifElse _ yes no => by simp [renumber, renumber_renumber g h yes, renumber_renumber g h no]
  | .loop _ body => by simp [renumber, renumber_renumber g h body]
  | .function _ _ body => by
    simp [renumber, renumberAll_renumberAll g h body, Function.comp_def]

@[simp] theorem renumberAll_renumberAll (g h : Nat → Nat) : (ss : List Stmt) →
    renumberAll h (renumberAll g ss) = renumberAll (h ∘ g) ss
  | [] => rfl
  | s :: ss => by simp [renumberAll, renumber_renumber g h s, renumberAll_renumberAll g h ss]

end

mutual

private theorem exposedReturns_renumber (g : Nat → Nat) : (s : Stmt) →
    (s.renumber g).exposedReturns = s.exposedReturns.map (Token.renumber g)
  | .expression _ => rfl
  | .print _ _ => rfl
  | .var _ _ => rfl
  | .block body => exposedReturnsOf_renumber g body
  | .ifThen _ yes => exposedReturns_renumber g yes
  | .ifElse _ yes no => by
    simp only [renumber, exposedReturns]
    rw [exposedReturns_renumber g yes, exposedReturns_renumber g no, List.map_append]
  | .loop _ body => exposedReturns_renumber g body
  | .function _ _ _ => rfl
  | .ret _ _ => rfl
  | .broken => rfl

theorem exposedReturnsOf_renumber (g : Nat → Nat) : (ss : List Stmt) →
    exposedReturnsOf (renumberAll g ss) = (exposedReturnsOf ss).map (Token.renumber g)
  | [] => rfl
  | s :: ss => by
    simp only [renumberAll, exposedReturnsOf]
    rw [exposedReturns_renumber g s, exposedReturnsOf_renumber g ss, List.map_append]

end

end Stmt

def Function.renumber (g : Nat → Nat) (f : Function) : Function :=
  { f with
    name := f.name.renumber g
    params := f.params.map (Token.renumber g)
    body := Stmt.renumberAll g f.body }

namespace Value

def renumber (g : Nat → Nat) : Value → Value
  | function f => function (f.renumber g)
  | v => v

@[simp] theorem renumber_id (v : Value) : v.renumber id = v := by
  cases v with
  | function f =>
    have hparams : f.params.map (Token.renumber id) = f.params := List.map_id f.params
    simp [renumber, Function.renumber, hparams]
  | _ => rfl

@[simp] theorem renumber_renumber (g h : Nat → Nat) (v : Value) :
    (v.renumber g).renumber h = v.renumber (h ∘ g) := by
  cases v with
  | function f => simp [renumber, Function.renumber, Function.comp_def]
  | _ => rfl

@[simp] theorem renumber_ofLiteral (g : Nat → Nat) (l : Literal) :
    (ofLiteral l).renumber g = ofLiteral l := by
  cases l <;> rfl

@[simp] theorem truthy_renumber (g : Nat → Nat) (v : Value) : (v.renumber g).truthy = v.truthy := by
  cases v with
  | function f => rfl
  | _ => rfl

@[simp] theorem number?_renumber (g : Nat → Nat) (v : Value) : (v.renumber g).number? = v.number? := by
  cases v with
  | function f => rfl
  | _ => rfl

@[simp] theorem text_renumber (g : Nat → Nat) (v : Value) : (v.renumber g).text = v.text := by
  cases v with
  | function f => rfl
  | _ => rfl

/-- Functions are told apart by identity, which has no line. -/
@[simp] theorem beq_renumber (g : Nat → Nat) (v w : Value) :
    (v.renumber g == w.renumber g) = (v == w) := by
  cases v <;> cases w <;> rfl

end Value

namespace Bindings

def renumber (g : Nat → Nat) (b : Bindings) : Bindings :=
  ⟨b.entries.map fun e => (e.1, e.2.renumber g)⟩

@[simp] theorem renumber_id (b : Bindings) : b.renumber id = b := by
  simp [renumber]

@[simp] theorem renumber_renumber (g h : Nat → Nat) (b : Bindings) :
    (b.renumber g).renumber h = b.renumber (h ∘ g) := by
  simp [renumber, Function.comp_def]

theorem get?_renumber (g : Nat → Nat) (b : Bindings) (name : String) :
    (b.renumber g).get? name = (b.get? name).map (Value.renumber g) := by
  obtain ⟨entries⟩ := b
  simp only [renumber, get?]
  induction entries with
  | nil => rfl
  | cons e es ih =>
    simp only [List.map_cons, getEntry?]
    by_cases h : e.1 = name
    · simp [h]
    · simp [h, ih]

private theorem set_renumber (g : Nat → Nat) (b : Bindings) (name : String) (v : Value) :
    (b.renumber g).set name (v.renumber g) = (b.set name v).renumber g := by
  obtain ⟨entries⟩ := b
  simp only [renumber, set, Bindings.mk.injEq]
  induction entries with
  | nil => rfl
  | cons e es ih =>
    simp only [List.map_cons, setEntry]
    by_cases h : e.1 = name
    · simp [h]
    · simp [h, ih]

end Bindings

namespace Store

def renumber (g : Nat → Nat) (s : Store) : Store := { s with scopes := s.scopes.map (Bindings.renumber g) }

@[simp] theorem renumber_id (s : Store) : s.renumber id = s := by
  have hscopes : Bindings.renumber id = id := funext Bindings.renumber_id
  simp [renumber, hscopes]

@[simp] theorem renumber_renumber (g h : Nat → Nat) (s : Store) :
    (s.renumber g).renumber h = s.renumber (h ∘ g) := by
  simp [renumber, Function.comp_def]

private theorem valueIn?_renumber (g : Nat → Nat) (s : Store) (scope : Nat) (name : String) :
    (s.renumber g).valueIn? scope name = (s.valueIn? scope name).map (Value.renumber g) := by
  simp only [valueIn?, renumber, Array.getElem?_map]
  cases s.scopes[scope]? with
  | none => rfl
  | some b => exact b.get?_renumber g name

theorem holder?_renumber (g : Nat → Nat) (s : Store) (chain : List Nat) (name : String) :
    (s.renumber g).holder? chain name = s.holder? chain name := by
  simp only [holder?, valueIn?_renumber, Option.isSome_map]

theorem get?_renumber (g : Nat → Nat) (s : Store) (env : Env) (name : String) :
    (s.renumber g).get? env name = (s.get? env name).map (Value.renumber g) := by
  rw [get?_eq, get?_eq, holder?_renumber]
  cases s.holder? env.chain name with
  | none => rfl
  | some scope => exact s.valueIn?_renumber g scope name

theorem bindIn_renumber (g : Nat → Nat) (s : Store) (scope : Nat) (name : String) (v : Value) :
    (s.renumber g).bindIn scope name (v.renumber g) = (s.bindIn scope name v).renumber g := by
  simp only [bindIn, renumber, Store.mk.injEq, and_true]
  apply Array.ext_getElem?
  intro i
  simp only [Array.getElem?_modify, Array.getElem?_map]
  by_cases h : scope = i
  · simp [h, Function.comp_def, Bindings.set_renumber]
  · simp [h]

theorem define_renumber (g : Nat → Nat) (s : Store) (env : Env) (name : String) (v : Value) :
    (s.renumber g).define env name (v.renumber g) = (s.define env name v).renumber g :=
  s.bindIn_renumber g env.own name v

theorem defineAll_renumber (g : Nat → Nat) (s : Store) (env : Env) (names : List Token)
    (vs : List Value) :
    (s.renumber g).defineAll env (names.map (Token.renumber g)) (vs.map (Value.renumber g)) =
      (s.defineAll env names vs).renumber g := by
  induction names generalizing s vs with
  | nil => simp only [List.map_nil, defineAll]
  | cons p ps ih =>
    cases vs with
    | nil => rfl
    | cons v vs =>
      simp only [List.map_cons, defineAll, Token.lexeme_renumber, define_renumber]
      exact ih _ vs

theorem openScope_renumber (g : Nat → Nat) (s : Store) (outer : List Nat) :
    (s.renumber g).openScope outer = ((s.openScope outer).1, (s.openScope outer).2.renumber g) := by
  simp [openScope, renumber, Bindings.renumber, Bindings.empty]

end Store

namespace Machine

def renumber (g : Nat → Nat) (m : Machine) : Machine := { m with store := m.store.renumber g }

@[simp] theorem renumber_id (m : Machine) : m.renumber id = m := by
  simp [renumber]

@[simp] theorem renumber_renumber (g h : Nat → Nat) (m : Machine) :
    (m.renumber g).renumber h = m.renumber (h ∘ g) := by
  simp [renumber]

end Machine

def Flow.renumber (g : Nat → Nat) : Flow → Flow
  | .normal => .normal
  | .value v => .value (v.renumber g)
  | .ret v => .ret (v.renumber g)

theorem Flow.outward_renumber (g : Nat → Nat) (flow : Flow) :
    (flow.renumber g).outward = flow.outward.renumber g := by
  cases flow <;> rfl

theorem Flow.result_renumber (g : Nat → Nat) (flow : Flow) :
    (flow.renumber g).result = flow.result.renumber g := by
  cases flow <;> rfl

def RuntimeError.renumber (g : Nat → Nat) (e : RuntimeError) : RuntimeError :=
  { e with token := e.token.renumber g }

namespace Diagnostic

def renumber (g : Nat → Nat) : Diagnostic → Diagnostic
  | lexical n message => lexical (g n) message
  | syntactic n place message => syntactic (g n) place message
  | runtime n message => runtime (g n) message

end Diagnostic

def RunResult.renumber (g : Nat → Nat) (r : RunResult) : RunResult :=
  { r with report := r.report.map (Diagnostic.renumber g), machine := r.machine.renumber g }

namespace Operator

theorem unary_renumber (g : Nat → Nat) (op : Token) (v : Value) :
    unary (op.renumber g) (v.renumber g) = (unary op v).map (Value.renumber g) := by
  simp only [unary, Token.kind_renumber, Token.lexeme_renumber, Value.truthy_renumber]
  split
  · rfl
  · cases v <;> rfl
  · cases v <;> rfl
  · rfl

private theorem add_renumber (g : Nat → Nat) (v w : Value) :
    add (v.renumber g) (w.renumber g) = (add v w).map (Value.renumber g) := by
  cases v <;> cases w <;> rfl

theorem binary_renumber (g : Nat → Nat) (op : Token) (v w : Value) :
    binary (op.renumber g) (v.renumber g) (w.renumber g) = (binary op v w).map (Value.renumber g) := by
  have numbers (k : TokenKind) (x y : Float) (f : Float → Float → Value) (hf : arithmetic? k = some f) :
      (f x y).renumber g = f x y := by
    cases k <;> cases hf <;> rfl
  simp only [binary, Token.kind_renumber, Token.lexeme_renumber, bne, Value.beq_renumber]
  split
  · exact add_renumber g v w
  · rfl
  · rfl
  · generalize op.kind = k
    cases v <;> cases w <;> try rfl
    rename_i x y
    simp only [Value.renumber]
    cases bitwise? k with
    | some f => rfl
    | none =>
      cases hf : arithmetic? k with
      | none => rfl
      | some f => exact congrArg Except.ok (numbers k x y f hf).symm

end Operator

end Scriptlet
