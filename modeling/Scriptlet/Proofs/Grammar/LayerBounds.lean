import Scriptlet.Proofs.Grammar.Layer

namespace Scriptlet.Grammar

/-- The next token, if there is one, continues no expression whose operators bind tighter than `p`. -/
def Stops (p : Precedence) (ts : List Token) : Prop :=
  ∀ t ∈ ts.head?, ∀ q j, t.kind.joining? = some (q, j) → q.level ≤ p.level

namespace Layer

/-- Only below bounds looser than this one can an expression of the layer be read to its end. -/
def opening : Layer → Precedence
  | assignment => .assignment
  | disjunction => .disjunction
  | conjunction => .conjunction
  | equality => .equality
  | bitwise => .bitwise
  | comparison => .comparison
  | term => .term
  | factor => .factor
  | unary | suffixed => .step

/-- Operators that bind tighter than this would have become part of an expression of the layer. The
value of an assignment takes in all of them. -/
def closing : Layer → Precedence
  | assignment => .lowest
  | disjunction => .disjunction
  | conjunction => .conjunction
  | equality => .equality
  | bitwise => .bitwise
  | comparison => .comparison
  | term => .term
  | factor => .factor
  | unary => .unary
  | suffixed => .call

theorem opening_tighter (l : Layer) : l.opening.level ≤ l.tighter.opening.level := by
  cases l <;> decide

theorem closing_tighter (l : Layer) : l.closing.level ≤ l.tighter.closing.level := by
  cases l <;> decide

/-- A bound lies between the two of the layer above it. -/
theorem bounds_above {m : Precedence} (hm : m.level ≤ Precedence.unary.level) :
    m < (above m).opening ∧ m.level ≤ (above m).closing.level := by
  cases m <;> revert hm <;> decide

theorem joining?_of_mem_logicalOperators {l : Layer} {k : TokenKind}
    (h : k ∈ l.logicalOperators) : k.joining? = some (l.opening, .logical) := by
  cases l <;> simp only [logicalOperators, List.mem_cons, List.not_mem_nil, or_false] at h <;>
    rcases h with rfl | rfl <;> rfl

theorem joining?_of_mem_binaryOperators {l : Layer} {k : TokenKind}
    (h : k ∈ l.binaryOperators) : k.joining? = some (l.opening, .binary) := by
  cases l <;> simp only [binaryOperators, List.mem_cons, List.not_mem_nil, or_false] at h
  case bitwise => rcases h with rfl | rfl | rfl | rfl | rfl <;> rfl
  case comparison => rcases h with rfl | rfl | rfl | rfl <;> rfl
  all_goals rcases h with rfl | rfl <;> rfl

/-- The layer whose operators have the given precedence. -/
def joinedBy : Precedence → Layer
  | .lowest | .assignment => assignment
  | .disjunction => disjunction
  | .conjunction => conjunction
  | .equality => equality
  | .bitwise => bitwise
  | .comparison => comparison
  | .term => term
  | .factor => factor
  | .unary => unary
  | .step | .call => suffixed

/-- What the operator table says of a token, in terms of the layers. -/
def Joined (k : TokenKind) (p : Precedence) : Joining → Prop
  | .logical => k ∈ (joinedBy p).logicalOperators ∧ (joinedBy p).opening = p
  | .binary => k ∈ (joinedBy p).binaryOperators ∧ (joinedBy p).opening = p
  | .assign => k = .equal ∧ p = .assignment
  | .step => k ∈ [.plusPlus, .minusMinus] ∧ p = .step
  | .call => k = .leftParen ∧ p = .call

theorem joined_of_joining? {k : TokenKind} {p : Precedence} {j : Joining}
    (h : k.joining? = some (p, j)) : Joined k p j := by
  cases k <;> cases h <;> unfold Joined <;> decide

/-- Layers with operators between two operands open and close with these operators. -/
def Joins (l : Layer) : Prop :=
  l.closing = l.opening ∧ l.opening < l.tighter.opening ∧ above l.opening = l.tighter ∧
    l.opening.level ≤ Precedence.factor.level

theorem joins_of_mem_logicalOperators {l : Layer} {k : TokenKind} (h : k ∈ l.logicalOperators) :
    l.Joins := by
  cases l <;> first | exact absurd h List.not_mem_nil | (unfold Joins; decide)

theorem joins_of_mem_binaryOperators {l : Layer} {k : TokenKind} (h : k ∈ l.binaryOperators) :
    l.Joins := by
  cases l <;> first | exact absurd h List.not_mem_nil | (unfold Joins; decide)

/-- An operator that an expression of layer `k` leaves over binds to no looser layer than its own. -/
theorem rank_le_of_opening_le {l k : Layer} (hl : l.Joins) (h : l.opening.level ≤ k.closing.level) :
    l.rank ≤ k.rank := by
  obtain ⟨-, ht, -, -⟩ := hl
  revert ht h
  cases l <;> cases k <;> decide

/-- The layer above a bound holds all that is joined by operators tighter than the bound. -/
theorem rank_above_le {l : Layer} {m : Precedence} (hl : l.Joins) (h : m < l.opening) :
    (above m).rank ≤ l.rank := by
  obtain ⟨-, ht, -, -⟩ := hl
  revert ht h
  cases l <;> cases m <;> decide

theorem rank_above_le_assignment {m : Precedence} (h : m < .assignment) :
    (above m).rank ≤ assignment.rank := by
  revert h
  cases m <;> decide

theorem rank_above_le_unary {m : Precedence} (h : m.level ≤ Precedence.unary.level) :
    (above m).rank ≤ unary.rank := by
  revert h
  cases m <;> decide

theorem eq_suffixed_of_call {l : Layer} (h : Precedence.call.level ≤ l.closing.level) :
    l = suffixed := by
  revert h
  cases l <;> decide

end Layer

namespace Stops

theorem mono {p q : Precedence} {ts : List Token} (h : Stops p ts) (hpq : p.level ≤ q.level) :
    Stops q ts :=
  fun t ht r j hj => Nat.le_trans (h t ht r j hj) hpq

theorem of_joining? {p q : Precedence} {j : Joining} {t : Token} (ts : List Token)
    (h : t.kind.joining? = some (q, j)) (hq : q.level ≤ p.level) : Stops p (t :: ts) := by
  intro u hu r i hi
  cases hu
  rw [h] at hi
  cases hi
  exact hq

theorem of_not_joining {t : Token} (p : Precedence) (ts : List Token)
    (h : t.kind.joining? = none) : Stops p (t :: ts) := by
  intro u hu r i hi
  cases hu
  rw [h] at hi
  cases hi

theorem head {p q : Precedence} {j : Joining} {t : Token} {ts : List Token}
    (h : Stops p (t :: ts)) (hj : t.kind.joining? = some (q, j)) : q.level ≤ p.level :=
  h t rfl q j hj

/-- No token continues a call. -/
theorem call (ts : List Token) : Stops .call ts := by
  intro t _ q j _
  cases q <;> decide

end Stops

end Scriptlet.Grammar
