import Mathlib.Data.List.TakeWhile
import Scriptlet.Proofs.Grammar.RenumberedProgram
import Scriptlet.Proofs.Grammar.TreeProperty
import Scriptlet.Tree.ReturnPlacement

namespace Scriptlet

namespace Expr

mutual

/-- The tokens that an expression holds, as they are written. -/
def tokens : Expr → List Token
  | .literal _ => []
  | .name t => [t]
  | .assign target value => target :: tokens value
  | .group inner => tokens inner
  | .unary op operand => op :: tokens operand
  | .step op target => [target, op]
  | .binary op lhs rhs | .logical op lhs rhs => tokens lhs ++ op :: tokens rhs
  | .call callee paren args => tokens callee ++ tokensOf args ++ [paren]

def tokensOf : List Expr → List Token
  | [] => []
  | e :: es => tokens e ++ tokensOf es

end

private theorem forall_mem_tokensOf_iff {T : Token → Prop} {es : List Expr} :
    (∀ t ∈ tokensOf es, T t) ↔ ∀ e ∈ es, ∀ t ∈ e.tokens, T t := by
  induction es with
  | nil => simp [tokensOf]
  | cons e es ih => rw [tokensOf, List.forall_mem_append, List.forall_mem_cons, ih]

end Expr

namespace Stmt

mutual

/-- The tokens that a statement holds, as they are written. -/
def tokens : Stmt → List Token
  | .expression value => value.tokens
  | .print keyword value => keyword :: value.tokens
  | .var name none => [name]
  | .var name (some init) => name :: init.tokens
  | .block body => tokensOf body
  | .ifThen condition yes => condition.tokens ++ tokens yes
  | .ifElse condition yes no => condition.tokens ++ tokens yes ++ tokens no
  | .loop condition body => condition.tokens ++ tokens body
  | .function name params body => name :: params ++ tokensOf body
  | .ret keyword none => [keyword]
  | .ret keyword (some value) => keyword :: value.tokens
  | .broken => []

def tokensOf : List Stmt → List Token
  | [] => []
  | s :: ss => tokens s ++ tokensOf ss

end

private theorem forall_mem_tokensOf_iff {T : Token → Prop} {ss : List Stmt} :
    (∀ t ∈ tokensOf ss, T t) ↔ ∀ s ∈ ss, ∀ t ∈ s.tokens, T t := by
  induction ss with
  | nil => simp [tokensOf]
  | cons s ss ih => rw [tokensOf, List.forall_mem_append, List.forall_mem_cons, ih]

mutual

/-- The returns that are placed wrongly are shown by their own keywords. -/
theorem exposedReturns_subset : (s : Stmt) → s.exposedReturns ⊆ s.tokens
  | .expression _ | .print .. | .var .. | .function .. | .broken => List.nil_subset _
  | .block body => exposedReturnsOf_subset body
  | .ifThen _ yes => List.subset_append_of_subset_right _ (exposedReturns_subset yes)
  | .ifElse c yes no => by
    rw [exposedReturns, tokens, List.append_assoc]
    apply List.subset_append_of_subset_right
    exact List.append_subset_of_subset_of_subset
      (List.subset_append_of_subset_left _ (exposedReturns_subset yes))
      (List.subset_append_of_subset_right _ (exposedReturns_subset no))
  | .loop _ body => List.subset_append_of_subset_right _ (exposedReturns_subset body)
  | .ret _ none => List.Subset.refl _
  | .ret keyword (some _) => List.cons_subset_cons keyword (List.nil_subset _)

theorem exposedReturnsOf_subset : (ss : List Stmt) → exposedReturnsOf ss ⊆ tokensOf ss
  | [] => List.nil_subset _
  | s :: ss => List.append_subset_of_subset_of_subset
    (List.subset_append_of_subset_left _ (exposedReturns_subset s))
    (List.subset_append_of_subset_right _ (exposedReturnsOf_subset ss))

end

end Stmt

namespace Grammar

/-- A tree that is made of parts and tokens holds no others. -/
theorem treeProperty_tokens (T : Token → Prop) :
    TreeProperty T (fun e => ∀ t ∈ e.tokens, T t) (fun s => ∀ t ∈ s.tokens, T t) where
  literal _ := List.forall_mem_nil _
  name ht := List.forall_mem_singleton.2 ht
  assign ht he := List.forall_mem_cons.2 ⟨List.forall_mem_singleton.1 ht, he⟩
  group he := he
  unary hop _ _ he := List.forall_mem_cons.2 ⟨hop, he⟩
  step hop _ ht := List.forall_mem_append.2 ⟨ht, List.forall_mem_singleton.2 hop⟩
  binary hop _ hl hr := List.forall_mem_append.2 ⟨hl, List.forall_mem_cons.2 ⟨hop, hr⟩⟩
  logical hop _ hl hr := List.forall_mem_append.2 ⟨hl, List.forall_mem_cons.2 ⟨hop, hr⟩⟩
  call hparen hf hargs := by
    rw [Expr.tokens, List.forall_mem_append, List.forall_mem_append, Expr.forall_mem_tokensOf_iff,
      List.forall_mem_singleton]
    exact ⟨⟨hf, hargs⟩, hparen⟩
  expression he := he
  print hk he := List.forall_mem_cons.2 ⟨hk, he⟩
  var {name init} ht hinit := by
    cases init with
    | none => exact List.forall_mem_singleton.2 ht
    | some e => exact List.forall_mem_cons.2 ⟨ht, hinit e rfl⟩
  ret {keyword value} hk hvalue := by
    cases value with
    | none => exact List.forall_mem_singleton.2 hk
    | some e => exact List.forall_mem_cons.2 ⟨hk, hvalue e rfl⟩
  block hbody := Stmt.forall_mem_tokensOf_iff.2 hbody
  ifThen hc hyes := List.forall_mem_append.2 ⟨hc, hyes⟩
  ifElse hc hyes hno := List.forall_mem_append.2 ⟨List.forall_mem_append.2 ⟨hc, hyes⟩, hno⟩
  loop hc hbody := List.forall_mem_append.2 ⟨hc, hbody⟩
  function ht hparams hbody := by
    rw [Stmt.tokens, List.cons_append, List.forall_mem_cons, List.forall_mem_append,
      Stmt.forall_mem_tokensOf_iff]
    exact ⟨ht, hparams, hbody⟩

theorem input_subset (tokens : List Token) :
    input tokens ⊆ tokens := (List.takeWhile_sublist _).subset

theorem kind_ne_eof_of_mem_input {tokens : List Token} {t : Token} (h : t ∈ input tokens) :
    t.kind ≠ .eof := by
  have hkind : (t.kind != .eof) = true := List.mem_takeWhile_imp (p := fun t : Token => t.kind != .eof) h
  exact bne_iff_ne.1 hkind

theorem map_eq_self {α : Type} {f : α → α} {l : List α} (h : ∀ a ∈ l, f a = a) : l.map f = l :=
  (List.map_congr_left h).trans (List.map_id l)

/-- A tree stays as it is if its tokens do. -/
theorem treeProperty_renumber (g : Nat → Nat) :
    TreeProperty (fun t => t.renumber g = t) (fun e => e.renumber g = e)
      (fun s => s.renumber g = s) where
  literal _ := rfl
  name ht := congrArg Expr.name ht
  assign ht he := by rw [Expr.renumber, Expr.name.inj ht, he]
  group he := congrArg Expr.group he
  unary hop _ _ he := by rw [Expr.renumber, hop, he]
  step hop _ ht := by rw [Expr.renumber, hop, Expr.name.inj ht]
  binary hop _ hl hr := by rw [Expr.renumber, hop, hl, hr]
  logical hop _ hl hr := by rw [Expr.renumber, hop, hl, hr]
  call hparen hf hargs := by
    rw [Expr.renumber, hparen, hf, Expr.renumberAll_eq_map, map_eq_self hargs]
  expression he := congrArg Stmt.expression he
  print hk he := by rw [Stmt.renumber, hk, he]
  var {name init} ht hinit := by
    cases init with
    | none => rw [Stmt.renumber, ht, Option.map_none]
    | some e => rw [Stmt.renumber, ht, Option.map_some, hinit e rfl]
  ret {keyword value} hk hvalue := by
    cases value with
    | none => rw [Stmt.renumber, hk, Option.map_none]
    | some e => rw [Stmt.renumber, hk, Option.map_some, hvalue e rfl]
  block hbody := by rw [Stmt.renumber, Stmt.renumberAll_eq_map, map_eq_self hbody]
  ifThen hc hyes := by rw [Stmt.renumber, hc, hyes]
  ifElse hc hyes hno := by rw [Stmt.renumber, hc, hyes, hno]
  loop hc hbody := by rw [Stmt.renumber, hc, hbody]
  function ht hparams hbody := by
    rw [Stmt.renumber, Stmt.renumberAll_eq_map, ht, map_eq_self hparams, map_eq_self hbody]

private theorem Correspondence.restrict {T T' : Token → Token → Prop} {P : Expr → Expr → Prop}
    {Q : Stmt → Stmt → Prop} (h : Correspondence T P Q) (hT : ∀ {t t'}, T' t t' → T t t') :
    Correspondence T' P Q :=
  { h with
    kind := fun ht => h.kind (hT ht)
    carries := fun ht => h.carries (hT ht)
    name := fun ht => h.name (hT ht)
    unary := fun hop => h.unary (hT hop)
    step := fun hop => h.step (hT hop)
    binary := fun hop => h.binary (hT hop)
    logical := fun hop => h.logical (hT hop)
    call := fun hparen => h.call (hT hparen)
    print := fun hk => h.print (hT hk)
    var := fun ht => h.var (hT ht)
    ret := fun hk => h.ret (hT hk)
    function := fun ht hparams => h.function (hT ht) (hparams.imp fun _ _ => hT) }

end Grammar

namespace Program

open Grammar

open List (Forall₂)

/-- The tokens of the trees are among those before the end. -/
theorem tokens_ofTokens (interactive : Bool) (tokens : List Token) :
    Stmt.tokensOf (ofTokens interactive tokens).statements ⊆ input tokens :=
  Stmt.forall_mem_tokensOf_iff.2 ((treeProperty_tokens (· ∈ input tokens)).declarations
    (List.forall_mem_nil _) (.ofTokens interactive tokens) fun _ ht => ht)

/-- The error is shown by one of the tokens before the end, or by the end. -/
def Shows (tokens : List Token) (e : ParseError) : Prop :=
  (∃ t ∈ tokens, t.kind ≠ .eof ∧ e = .atToken t e.fault) ∨ e = ⟨e.fault, .atEnd, lineOfEnd tokens⟩

theorem shows_errors (interactive : Bool) (tokens : List Token) :
    ∀ e ∈ (ofTokens interactive tokens).errors, Shows tokens e := by
  -- Each token corresponds to itself as long as it is one of those that are read.
  let T (t t' : Token) : Prop := t' = t.renumber id ∧ t ∈ input tokens
  have hT : Correspondence T _ _ := (correspondence_renumber id).restrict And.left
  have hinput : Forall₂ T (input tokens) (input tokens) := List.forall₂_same.2 fun t ht => ⟨rfl, ht⟩
  have hprograms : ProgramsCorrespond T _ (.ofTokens interactive tokens)
      (.ofTokens interactive tokens) _ _ := programs_correspond hT rfl hinput
  have hshown {e e' : ParseError} (h : Faults T (.ofTokens interactive tokens)
      (.ofTokens interactive tokens) e e') : Shows tokens e ∧ True := by
    refine ⟨?_, trivial⟩
    cases h with
    | atEnd fault => exact .inr rfl
    | @token t _ fault ht =>
      exact .inl ⟨t, input_subset tokens ht.2, kind_ne_eof_of_mem_input ht.2, rfl⟩
  exact ((List.forall₂_and_left _ _).1 (hprograms.errors.imp fun _ _ => hshown)).1

end Program

end Scriptlet
