import Scriptlet.Session
import Scriptlet.Proofs.Number.Word

namespace Scriptlet

open Evaluation Number

/-- The bitwise operators between two operands. -/
inductive WordOp where
  | and | or | xor | shiftLeft | shiftRight

namespace WordOp

def kind : WordOp → TokenKind
  | and => .ampersand
  | or => .pipe
  | xor => .caret
  | shiftLeft => .lessLess
  | shiftRight => .greaterGreater

/-- The operator on 32-bit integers in two's complement. A shift goes by its right operand modulo 32;
one to the left drops what goes over, and one to the right rounds down. -/
def apply : WordOp → Int → Int → Int
  | and, a, b => (BitVec.ofInt 32 a &&& BitVec.ofInt 32 b).toInt
  | or, a, b => (BitVec.ofInt 32 a ||| BitVec.ofInt 32 b).toInt
  | xor, a, b => (BitVec.ofInt 32 a ^^^ BitVec.ofInt 32 b).toInt
  | shiftLeft, a, b => (a * 2 ^ (b % 32).toNat).bmod (2 ^ 32)
  | shiftRight, a, b => a / 2 ^ (b % 32).toNat

/-- The operator as evaluation applies it. -/
def onWords : WordOp → Int32 → Int32 → Int32
  | and => (· &&& ·)
  | or => (· ||| ·)
  | xor => (· ^^^ ·)
  | shiftLeft => (· <<< ·)
  | shiftRight => (· >>> ·)

theorem binary_eq {op : Token} {f : WordOp} (hop : op.kind = f.kind) (x y : Float) :
    Operator.binary op (.number x) (.number y) =
      .ok (Operator.word (f.onWords (Word.ofFloat x) (Word.ofFloat y))) := by
  unfold Operator.binary
  rw [hop]
  cases f <;> rfl

/-- An amount counts modulo 32, negative ones too. -/
theorem toNat_smod (w : BitVec 32) : (w.smod 32).toNat = (w.toInt % 32).toNat := by
  have hmod : (w.smod 32).toInt = w.toInt % 32 := by
    rw [BitVec.toInt_smod]
    exact Int.fmod_eq_emod_of_nonneg _ (by decide)
  have hsmall := (w.smod 32).isLt
  rw [BitVec.toInt_eq_toNat_cond] at hmod
  split at hmod <;> omega

private theorem toInt_shiftLeft (v w : Int32) :
    (v <<< w).toInt = (v.toInt * 2 ^ (w.toInt % 32).toNat).bmod (2 ^ 32) := by
  have hbits : (v <<< w).toBitVec = v.toBitVec <<< (w.toInt % 32).toNat := by
    rw [Int32.toBitVec_shiftLeft, BitVec.shiftLeft_eq', toNat_smod]
    rfl
  have hsigned : v.toInt = (v.toBitVec.toNat : Int).bmod (2 ^ 32) := BitVec.toInt_eq_toNat_bmod _
  rw [← Int32.toInt_toBitVec, hbits, BitVec.toInt_shiftLeft, Nat.shiftLeft_eq, hsigned,
    Int.bmod_mul_bmod, Int.natCast_mul, Int.natCast_pow]
  rfl

private theorem toInt_shiftRight (v w : Int32) :
    (v >>> w).toInt = v.toInt / 2 ^ (w.toInt % 32).toNat := by
  have hbits : (v >>> w).toBitVec = v.toBitVec.sshiftRight (w.toInt % 32).toNat := by
    rw [Int32.toBitVec_shiftRight, BitVec.sshiftRight', toNat_smod]
    rfl
  rw [← Int32.toInt_toBitVec, hbits, BitVec.toInt_sshiftRight, Int.shiftRight_eq_div_pow]
  rfl

private theorem toInt_onWords (f : WordOp) (v w : Int32) :
    (f.onWords v w).toInt = f.apply v.toInt w.toInt := by
  have hbits (u : Int32) : BitVec.ofInt 32 u.toInt = u.toBitVec := BitVec.ofInt_toInt
  cases f with
  | and =>
    rw [apply, hbits, hbits]
    rfl
  | or =>
    rw [apply, hbits, hbits]
    rfl
  | xor =>
    rw [apply, hbits, hbits]
    rfl
  | shiftLeft => exact toInt_shiftLeft v w
  | shiftRight => exact toInt_shiftRight v w

end WordOp

private theorem Word.toInt_complement (w : Int32) : (~~~w).toInt = -w.toInt - 1 := by
  have hlow := w.le_toInt
  have hhigh := w.toInt_lt
  rw [Int32.toInt_not, Int.bmod_eq_of_le] <;> omega

/-- An expression of bitwise operators and groupings over expressions that give numbers. -/
inductive WordTree where
  | leaf (e : Expr) (x : Float)
  | group (inner : WordTree)
  | complement (op : Token) (hop : op.kind = .tilde) (operand : WordTree)
  | binary (op : Token) (f : WordOp) (hop : op.kind = f.kind) (lhs rhs : WordTree)

namespace WordTree

def expr : WordTree → Expr
  | leaf e _ => e
  | group inner => .group inner.expr
  | complement op _ operand => .unary op operand.expr
  | binary op _ _ lhs rhs => .binary op lhs.expr rhs.expr

/-- The expressions at the leaves with the numbers that they give, from left to right. -/
def leaves : WordTree → List (Expr × Float)
  | leaf e x => [(e, x)]
  | group inner => inner.leaves
  | complement _ _ operand => operand.leaves
  | binary _ _ _ lhs rhs => lhs.leaves ++ rhs.leaves

/-- Whether there is an operator at the root, groupings apart. -/
def Operates : WordTree → Prop
  | leaf .. => False
  | group inner => inner.Operates
  | complement .. | binary .. => True

/-- The tree on integers. -/
def value : WordTree → Int
  | leaf _ x => truncated x
  | group inner => inner.value
  | complement _ _ operand => -operand.value - 1
  | binary _ f _ lhs rhs => f.apply lhs.value rhs.value

/-- The tree on floats, as evaluation goes through it. -/
def number : WordTree → Float
  | leaf _ x => x
  | group inner => inner.number
  | complement _ _ operand => Word.toFloat (~~~ (Word.ofFloat operand.number))
  | binary _ f _ lhs rhs =>
    Word.toFloat (f.onWords (Word.ofFloat lhs.number) (Word.ofFloat rhs.number))

/-- One after the other the expressions give the numbers, and leave the second machine. -/
inductive Give (calls : Calls) : List (Expr × Float) → Machine → Machine → Prop
  | nil {m : Machine} : Give calls [] m m
  | cons {e : Expr} {x : Float} {rest : List (Expr × Float)} {m m' m'' : Machine}
    (h : evaluateWith calls e m = .done (.number x) m') (hrest : Give calls rest m' m'') :
    Give calls ((e, x) :: rest) m m''

variable {calls : Calls} {m m' : Machine}

theorem Give.split {ls rs : List (Expr × Float)} (h : Give calls (ls ++ rs) m m') :
    ∃ between, Give calls ls m between ∧ Give calls rs between m' := by
  induction ls generalizing m with
  | nil => exact ⟨m, .nil, h⟩
  | cons l ls ih =>
    cases h with
    | cons hl hrest =>
      obtain ⟨between, hls, hrs⟩ := ih hrest
      exact ⟨between, .cons hl hls, hrs⟩

/-- Expressions that change nothing can be read in any order. -/
theorem Give.of_unchanged {ls : List (Expr × Float)}
    (h : ∀ l ∈ ls, evaluateWith calls l.1 m = .done (.number l.2) m) : Give calls ls m m := by
  induction ls with
  | nil => exact .nil
  | cons l ls ih =>
    obtain ⟨hl, hls⟩ := List.forall_mem_cons.1 h
    exact .cons hl (ih hls)

/-- Evaluation gives the tree on floats. -/
theorem evaluateWith_expr {t : WordTree} (h : Give calls t.leaves m m') :
    evaluateWith calls t.expr m = .done (.number t.number) m' := by
  induction t generalizing m m' with
  | leaf e x =>
    cases h with
    | cons he hrest =>
      cases hrest
      exact he
  | group inner ih => exact ih h
  | complement op hop operand ih =>
    have hstep : op.kind.isStep = false := by rw [hop]; rfl
    have hunary : Operator.isUnary op.kind = true := by rw [hop]; rfl
    have hoperator : Operator.unary op (.number operand.number) =
        .ok (.number (complement op hop operand).number) := by
      unfold Operator.unary
      rw [hop]
      rfl
    simp only [expr, evaluateWith, hstep, hunary, Bool.false_eq_true, if_false, if_true,
      Action.bind_apply, ih h, hoperator]
    rfl
  | binary op f hop lhs rhs ihl ihr =>
    obtain ⟨between, hl, hr⟩ := h.split
    simp only [expr, evaluateWith, Action.bind_apply, ihl hl, ihr hr, WordOp.binary_eq hop]
    rfl

/-- Nothing is lost on the way from one operator to the next. -/
theorem truncated_number (t : WordTree) : truncated t.number = t.value := by
  induction t with
  | leaf e x => rfl
  | group inner ih => exact ih
  | complement op hop operand ih =>
    rw [number, value, Word.truncated_toFloat, Word.toInt_complement, Word.toInt_ofFloat, ih]
  | binary op f hop lhs rhs ihl ihr =>
    rw [number, value, Word.truncated_toFloat, WordOp.toInt_onWords, Word.toInt_ofFloat,
      Word.toInt_ofFloat, ihl, ihr]

/-- The result of an operator is an integer. -/
theorem isInteger_number {t : WordTree} (h : t.Operates) : IsInteger t.number t.value := by
  rw [← truncated_number]
  induction t with
  | leaf e x => exact h.elim
  | group inner ih => exact ih h
  | complement op hop operand =>
    rw [number, Word.truncated_toFloat]
    exact Word.isInteger_toFloat _
  | binary op f hop lhs rhs =>
    rw [number, Word.truncated_toFloat]
    exact Word.isInteger_toFloat _

/-- Where the leaves give numbers, a tree of bitwise operators gives exactly the integer that it comes
to on 32-bit integers, each number truncated once. -/
theorem computed_on_words (t : WordTree) (ht : t.Operates) :
    -2 ^ 31 ≤ t.value ∧ t.value < 2 ^ 31 ∧ ∃ x, IsInteger x t.value ∧
      (∀ calls m m', Give calls t.leaves m m' →
        evaluateWith calls t.expr m = .done (.number x) m') ∧
      ∀ calls m, (∀ l ∈ t.leaves, evaluateWith calls l.1 m = .done (.number l.2) m) →
        evaluateWith calls t.expr m = .done (.number x) m := by
  have hbounds := truncated_bounds t.number
  rw [truncated_number] at hbounds
  refine ⟨hbounds.1, hbounds.2, t.number, isInteger_number ht, ?_, ?_⟩
  · intro calls m m' hleaves
    exact evaluateWith_expr hleaves
  · intro calls m hleaves
    exact evaluateWith_expr (.of_unchanged hleaves)

/-- `~(3.9 << n) & 1e10` for a variable `n` of value `-1`: the shift is by 31, which leaves the sign
bit alone, and the last number is too large for a word. -/
theorem computed_on_words_at_bounds :
    let op (kind : TokenKind) (lexeme : String) : Token := ⟨kind, lexeme, none, 1⟩
    let start := Session.start none
    let m := { start with store := start.store.define Session.globals "n" (.number (-1)) }
    let shift := binary (op .lessLess "<<") .shiftLeft rfl (leaf (.literal (.number 3.9)) 3.9)
      (leaf (.name (.named "n" 1)) (-1))
    let t := binary (op .ampersand "&") .and rfl (complement (op .tilde "~") rfl (group shift))
      (leaf (.literal (.number 1e10)) 1e10)
    t.Operates ∧ (∀ calls, ∀ l ∈ t.leaves, evaluateWith calls l.1 m = .done (.number l.2) m) ∧
      ∃ x, IsInteger x (2 ^ 31 - 1) ∧ ∀ calls, evaluateWith calls t.expr m = .done (.number x) m := by
  intro op start m shift t
  have hleaves : ∀ calls, ∀ l ∈ t.leaves, evaluateWith calls l.1 m = .done (.number l.2) m := by
    intro calls l hl
    have hl : l ∈ [(.literal (.number 3.9), 3.9), (.name (.named "n" 1), -1),
      (.literal (.number 1e10), 1e10)] := hl
    simp only [List.mem_cons, List.not_mem_nil, or_false] at hl
    rcases hl with rfl | rfl | rfl <;> rfl
  have hvalue : t.value = 2 ^ 31 - 1 := by decide +kernel
  obtain ⟨-, -, x, hx, -, hgives⟩ := computed_on_words t trivial
  rw [hvalue] at hx
  exact ⟨trivial, hleaves, x, hx, fun calls => hgives calls m (hleaves calls)⟩

end WordTree

end Scriptlet
