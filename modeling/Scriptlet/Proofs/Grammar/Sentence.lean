import Scriptlet.Proofs.Grammar.Layer

namespace Scriptlet.Grammar

inductive Optionally : List Token → Option Expr → Prop where
  | absent : Optionally [] none
  | given {ts : List Token} {e : Expr} : Derives .assignment ts e → Optionally ts (some e)

inductive VariableClause : List Token → Stmt → Prop where
  | plain {var x semicolon : Token} :
    var.kind = .kwVar → x.kind = .identifier → semicolon.kind = .semicolon →
    VariableClause [var, x, semicolon] (.var x none)
  | initialized {var x equal semicolon : Token} {ts : List Token} {e : Expr} :
    var.kind = .kwVar → x.kind = .identifier → equal.kind = .equal → Derives .assignment ts e →
    semicolon.kind = .semicolon →
    VariableClause (var :: x :: equal :: (ts ++ [semicolon])) (.var x (some e))

/-- What a `for` does first. -/
inductive InitialClause : List Token → Option Stmt → Prop where
  | absent {semicolon : Token} : semicolon.kind = .semicolon → InitialClause [semicolon] none
  | binding {ts : List Token} {s : Stmt} : VariableClause ts s → InitialClause ts (some s)
  | expression {ts : List Token} {e : Expr} {semicolon : Token} :
    Derives .assignment ts e → semicolon.kind = .semicolon →
    InitialClause (ts ++ [semicolon]) (some (.expression e))

/-- A `for` in terms of blocks and loops. -/
def forBlock (init : Option Stmt) (condition increment : Option Expr) (body : Stmt) : Stmt :=
  let round := match increment with
    | none => body
    | some e => .block [body, .expression e]
  .block (init.toList ++ [.loop (condition.getD (.literal (.bool true))) round])

/-- Statements are told apart by whether an `else` behind them would become theirs. -/
inductive Form where
  | statement (takesElse : Bool)
  | declaration
  deriving DecidableEq, Repr

/-- `Sentence f ts s`: the tokens, all of them and in this order, are a sentence of the form, and `s`
is its tree. -/
inductive Sentence : Form → List Token → Stmt → Prop where
  | expression {ts : List Token} {e : Expr} {semicolon : Token} :
    Derives .assignment ts e → semicolon.kind = .semicolon →
    Sentence (.statement false) (ts ++ [semicolon]) (.expression e)
  | print {print semicolon : Token} {ts : List Token} {e : Expr} :
    print.kind = .kwPrint → Derives .assignment ts e → semicolon.kind = .semicolon →
    Sentence (.statement false) (print :: (ts ++ [semicolon])) (.print print e)
  | ret {ret semicolon : Token} {ts : List Token} {value : Option Expr} :
    ret.kind = .kwReturn → Optionally ts value → semicolon.kind = .semicolon →
    Sentence (.statement false) (ret :: (ts ++ [semicolon])) (.ret ret value)
  | block {opened closed : Token} {body : List (List Token × Stmt)} :
    opened.kind = .leftBrace → (∀ d ∈ body, Sentence .declaration d.1 d.2) →
    closed.kind = .rightBrace →
    Sentence (.statement false) (opened :: (body.flatMap Prod.fst ++ [closed]))
      (.block (body.map Prod.snd))
  | ifThen {kw opened closed : Token} {ts us : List Token} {c : Expr} {yes : Stmt} {b : Bool} :
    kw.kind = .kwIf → opened.kind = .leftParen → Derives .assignment ts c →
    closed.kind = .rightParen → Sentence (.statement b) us yes →
    Sentence (.statement true) (kw :: opened :: (ts ++ closed :: us)) (.ifThen c yes)
  | ifElse {kw opened closed otherwise : Token} {ts us vs : List Token} {c : Expr}
    {yes no : Stmt} {b : Bool} :
    kw.kind = .kwIf → opened.kind = .leftParen → Derives .assignment ts c →
    closed.kind = .rightParen → Sentence (.statement false) us yes →
    otherwise.kind = .kwElse → Sentence (.statement b) vs no →
    Sentence (.statement b) (kw :: opened :: (ts ++ closed :: (us ++ otherwise :: vs)))
      (.ifElse c yes no)
  | loop {kw opened closed : Token} {ts us : List Token} {c : Expr} {body : Stmt} {b : Bool} :
    kw.kind = .kwWhile → opened.kind = .leftParen → Derives .assignment ts c →
    closed.kind = .rightParen → Sentence (.statement b) us body →
    Sentence (.statement b) (kw :: opened :: (ts ++ closed :: us)) (.loop c body)
  | forLoop {kw opened semicolon closed : Token} {is cs ns us : List Token} {init : Option Stmt}
    {c increment : Option Expr} {body : Stmt} {b : Bool} :
    kw.kind = .kwFor → opened.kind = .leftParen → InitialClause is init → Optionally cs c →
    semicolon.kind = .semicolon → Optionally ns increment → closed.kind = .rightParen →
    Sentence (.statement b) us body →
    Sentence (.statement b) (kw :: opened :: (is ++ (cs ++ semicolon :: (ns ++ closed :: us))))
      (forBlock init c increment body)
  | ofStatement {ts : List Token} {s : Stmt} {b : Bool} :
    Sentence (.statement b) ts s → Sentence .declaration ts s
  | binding {ts : List Token} {s : Stmt} : VariableClause ts s → Sentence .declaration ts s
  | function {kw name opened closed start finish : Token} {params ts : List Token}
    {body : List (List Token × Stmt)} :
    kw.kind = .kwFun → name.kind = .identifier → opened.kind = .leftParen →
    Listed (params.map fun p => [p]) ts → (∀ p ∈ params, p.kind = .identifier) →
    params.length ≤ 255 → closed.kind = .rightParen → start.kind = .leftBrace →
    (∀ d ∈ body, Sentence .declaration d.1 d.2) → finish.kind = .rightBrace →
    Sentence .declaration
      (kw :: name :: opened :: (ts ++ closed :: start :: (body.flatMap Prod.fst ++ [finish])))
      (.function name params (body.map Prod.snd))

/-- Declarations one after the other, and their trees. -/
def IsProgram (ts : List Token) (ss : List Stmt) : Prop :=
  ∃ body : List (List Token × Stmt), (∀ d ∈ body, Sentence .declaration d.1 d.2) ∧
    ts = body.flatMap Prod.fst ∧ ss = body.map Prod.snd

/-- No sentence starts with one of these. -/
def comesAfter : TokenKind → Bool
  | .kwElse | .rightBrace => true
  | _ => false

/-- The tokens that start a declaration and no statement. -/
def declares : TokenKind → Bool
  | .kwVar | .kwFun => true
  | _ => false

private theorem kind_of_opening {k : TokenKind} (h : k.opening?.isSome) :
    comesAfter k = false ∧ declares k = false := by
  cases k <;> cases h <;> exact ⟨rfl, rfl⟩

theorem Sentence.exists_head {f : Form} {ts : List Token} {s : Stmt} (h : Sentence f ts s) :
    ∃ t us, ts = t :: us ∧ comesAfter t.kind = false ∧
      (f ≠ .declaration → declares t.kind = false) := by
  induction h with
  | expression he =>
    obtain ⟨t, us, rfl, ht⟩ := he.exists_opening
    exact ⟨t, _, rfl, (kind_of_opening ht).1, fun _ => (kind_of_opening ht).2⟩
  | print hk | ret hk | block hk | ifThen hk | ifElse hk | loop hk | forLoop hk =>
    exact ⟨_, _, rfl, by rw [hk]; rfl, fun _ => by rw [hk]; rfl⟩
  | ofStatement _ ih =>
    obtain ⟨t, us, rfl, ht, -⟩ := ih
    exact ⟨t, us, rfl, ht, fun h => absurd rfl h⟩
  | binding hv =>
    cases hv with
    | plain hk | initialized hk =>
      exact ⟨_, _, rfl, by rw [hk]; rfl, fun h => absurd rfl h⟩
  | function hk => exact ⟨_, _, rfl, by rw [hk]; rfl, fun h => absurd rfl h⟩

end Scriptlet.Grammar
