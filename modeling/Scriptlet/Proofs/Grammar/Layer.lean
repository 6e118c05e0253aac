import Scriptlet.Grammar.Expression

namespace Scriptlet.Grammar

/-- The layers from the loosest up. The tightest holds what operators cannot pull apart: operands
with calls behind them. -/
inductive Layer where
  | assignment | disjunction | conjunction | equality | bitwise | comparison | term | factor
  | unary | suffixed
  deriving DecidableEq, Repr

namespace Layer

def tighter : Layer → Layer
  | assignment => disjunction
  | disjunction => conjunction
  | conjunction => equality
  | equality => bitwise
  | bitwise => comparison
  | comparison => term
  | term => factor
  | factor => unary
  | unary | suffixed => suffixed

def logicalOperators : Layer → List TokenKind
  | disjunction => [.kwOr, .pipePipe]
  | conjunction => [.kwAnd, .ampersandAmpersand]
  | _ => []

def binaryOperators : Layer → List TokenKind
  | equality => [.equalEqual, .bangEqual]
  | bitwise => [.ampersand, .pipe, .caret, .lessLess, .greaterGreater]
  | comparison => [.greater, .greaterEqual, .less, .lessEqual]
  | term => [.plus, .minus]
  | factor => [.star, .slash]
  | _ => []

/-- The layer of the expressions whose operators bind tighter than the bound. Operators in front of an
operand open one whatever the bound. -/
def above : Precedence → Layer
  | .lowest => assignment
  | .assignment => disjunction
  | .disjunction => conjunction
  | .conjunction => equality
  | .equality => bitwise
  | .bitwise => comparison
  | .comparison => term
  | .term => factor
  | .factor | .unary => unary
  | .step | .call => suffixed

end Layer

/-- Parts in a row with a comma between each two of them. -/
inductive Listed : List (List Token) → List Token → Prop where
  | none : Listed [] []
  | one (ts : List Token) : Listed [ts] ts
  | more {ts us part : List Token} {parts : List (List Token)} {comma : Token} :
    comma.kind = .comma → Listed (part :: parts) us →
    Listed (ts :: part :: parts) (ts ++ comma :: us)

theorem Listed.exists_append {part ts : List Token} {parts : List (List Token)}
    (h : Listed (part :: parts) ts) : ∃ us, ts = part ++ us := by
  cases h with
  | one => exact ⟨[], (List.append_nil _).symm⟩
  | more _ _ => exact ⟨_, rfl⟩

/-- `Derives l ts e`: the tokens, all of them and in this order, are an expression of the layer, and
`e` is its tree. -/
inductive Derives : Layer → List Token → Expr → Prop where
  | assign {x op : Token} {ts : List Token} {value : Expr} :
    x.kind = .identifier → op.kind = .equal → Derives .assignment ts value →
    Derives .assignment (x :: op :: ts) (.assign x value)
  | logical {l : Layer} {op : Token} {ts us : List Token} {lhs rhs : Expr} :
    op.kind ∈ l.logicalOperators → Derives l ts lhs → Derives l.tighter us rhs →
    Derives l (ts ++ op :: us) (.logical op lhs rhs)
  | binary {l : Layer} {op : Token} {ts us : List Token} {lhs rhs : Expr} :
    op.kind ∈ l.binaryOperators → Derives l ts lhs → Derives l.tighter us rhs →
    Derives l (ts ++ op :: us) (.binary op lhs rhs)
  | unary {op : Token} {ts : List Token} {operand : Expr} :
    op.kind ∈ [.minus, .bang, .tilde] → Derives .unary ts operand →
    Derives .unary (op :: ts) (.unary op operand)
  | stepBefore {op x : Token} :
    op.kind ∈ [.plusPlus, .minusMinus] → x.kind = .identifier →
    Derives .unary [op, x] (.unary op (.name x))
  | stepAfter {x op : Token} :
    x.kind = .identifier → op.kind ∈ [.plusPlus, .minusMinus] →
    Derives .suffixed [x, op] (.step op x)
  | call {opened paren : Token} {ts us : List Token} {callee : Expr}
    {args : List (List Token × Expr)} :
    Derives .suffixed ts callee → opened.kind = .leftParen →
    Listed (args.map Prod.fst) us → (∀ a ∈ args, Derives .assignment a.1 a.2) →
    args.length ≤ 255 → paren.kind = .rightParen →
    Derives .suffixed (ts ++ opened :: (us ++ [paren])) (.call callee paren (args.map Prod.snd))
  | name {x : Token} : x.kind = .identifier → Derives .suffixed [x] (.name x)
  | literal {t : Token} {value : Literal} :
    t.kind ∈ [.number, .string] → t.literal = some value → Derives .suffixed [t] (.literal value)
  | yes {t : Token} : t.kind = .kwTrue → Derives .suffixed [t] (.literal (.bool true))
  | no {t : Token} : t.kind = .kwFalse → Derives .suffixed [t] (.literal (.bool false))
  | nil {t : Token} : t.kind = .kwNil → Derives .suffixed [t] (.literal .nil)
  | group {opened closed : Token} {ts : List Token} {inner : Expr} :
    opened.kind = .leftParen → Derives .assignment ts inner → closed.kind = .rightParen →
    Derives .suffixed (opened :: (ts ++ [closed])) (.group inner)
  | tighter {l : Layer} {ts : List Token} {e : Expr} : Derives l.tighter ts e → Derives l ts e

namespace Layer

/-- How many layers are looser. -/
def rank : Layer → Nat
  | assignment => 0
  | disjunction => 1
  | conjunction => 2
  | equality => 3
  | bitwise => 4
  | comparison => 5
  | term => 6
  | factor => 7
  | unary => 8
  | suffixed => 9

private theorem eq_of_rank {l k : Layer} (h : l.rank = k.rank) : l = k := by
  cases l <;> cases k <;> simp_all [rank]

private theorem rank_tighter (l : Layer) (h : l ≠ suffixed) : l.tighter.rank = l.rank + 1 := by
  cases l <;> simp_all [rank, tighter]

theorem rank_le (l : Layer) : l.rank ≤ 9 := by
  cases l <;> simp [rank]

end Layer

namespace Derives

/-- An expression of a layer is one of every looser layer. -/
theorem loosen {l k : Layer} {ts : List Token} {e : Expr} (h : Derives l ts e)
    (hk : k.rank ≤ l.rank) : Derives k ts e := by
  obtain ⟨n, hn⟩ := Nat.le.dest hk
  induction n generalizing k with
  | zero => exact Layer.eq_of_rank hn ▸ h
  | succ n ih =>
    have hs : k ≠ .suffixed := by
      rintro rfl
      have hl := l.rank_le
      have hr : Layer.suffixed.rank = 9 := rfl
      omega
    have ht := k.rank_tighter hs
    exact .tighter (ih (by omega) (by omega))

/-- An expression starts with a token that can open one. -/
theorem exists_opening {l : Layer} {ts : List Token} {e : Expr} (h : Derives l ts e) :
    ∃ t us, ts = t :: us ∧ t.kind.opening?.isSome := by
  induction h with
  | assign hx => exact ⟨_, _, rfl, by rw [hx]; rfl⟩
  | logical _ _ _ ih | binary _ _ _ ih =>
    obtain ⟨t, us, rfl, ht⟩ := ih
    exact ⟨t, _, rfl, ht⟩
  | call _ _ _ _ _ _ ih =>
    obtain ⟨t, us, rfl, ht⟩ := ih
    exact ⟨t, _, rfl, ht⟩
  | unary hop =>
    refine ⟨_, _, rfl, ?_⟩
    simp only [List.mem_cons, List.not_mem_nil, or_false] at hop
    rcases hop with h | h | h <;> rw [h] <;> rfl
  | stepBefore hk | literal hk =>
    refine ⟨_, _, rfl, ?_⟩
    simp only [List.mem_cons, List.not_mem_nil, or_false] at hk
    rcases hk with h | h <;> rw [h] <;> rfl
  | stepAfter h | name h | yes h | no h | nil h | group h => exact ⟨_, _, rfl, by rw [h]; rfl⟩
  | tighter _ ih => exact ih

/-- A bare name is one identifier. -/
theorem eq_of_name {l : Layer} {ts : List Token} {x : Token} (h : Derives l ts (.name x)) :
    ts = [x] ∧ x.kind = .identifier := by
  generalize he : Expr.name x = e at h
  induction h with
  | name hx =>
    cases he
    exact ⟨rfl, hx⟩
  | tighter _ ih => exact ih he
  | _ => cases he

end Derives

end Scriptlet.Grammar
