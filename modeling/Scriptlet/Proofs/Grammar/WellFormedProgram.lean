import Scriptlet.Proofs.Grammar.LastSemicolon
import Scriptlet.Proofs.Grammar.TreeProperty
import Scriptlet.Proofs.Tree.WellFormed

namespace Scriptlet

namespace Grammar

private theorem isUnary_of_opening? {k : TokenKind} (h : k.opening? = some .operator)
    (hstep : k.isStep = false) : Operator.isUnary k = true := by
  revert h hstep
  cases k <;> decide

private theorem isStep_of_joining? {k : TokenKind} {p : Precedence}
    (h : k.joining? = some (p, .step)) :
    k.isStep = true := by
  cases k <;> cases h <;> rfl

private theorem isBinary_of_joining? {k : TokenKind} {p : Precedence}
    (h : k.joining? = some (p, .binary)) :
    Operator.isBinary k = true := by
  cases k <;> cases h <;> rfl

private theorem isLogical_of_joining? {k : TokenKind} {p : Precedence}
    (h : k.joining? = some (p, .logical)) : Operator.isLogical k = true := by
  cases k <;> cases h <;> rfl

/-- The operator table of the grammar and the meanings of the operators fit together. -/
theorem treeProperty_operable (broken : Prop) :
    TreeProperty (fun _ => True) Expr.Operable (Stmt.Every Expr.Operable broken) where
  literal _ := trivial
  name _ := trivial
  assign _ hvalue := hvalue
  group hinner := hinner
  unary {op operand} _ hk hname hoperand := by
    refine ⟨?_, hoperand⟩
    by_cases hstep : op.kind.isStep = true
    · rw [if_pos hstep]
      exact hname hstep
    · rw [if_neg hstep]
      exact isUnary_of_opening? hk (Bool.eq_false_iff.2 hstep)
  step _ hk _ := isStep_of_joining? hk
  binary _ hk hlhs hrhs := ⟨isBinary_of_joining? hk, hlhs, hrhs⟩
  logical _ hk hlhs hrhs := ⟨isLogical_of_joining? hk, hlhs, hrhs⟩
  call _ hcallee hargs := ⟨hcallee, Expr.operableAll_iff.2 hargs⟩
  expression he := he
  print _ he := he
  var {name init} _ hinit := by
    cases init with
    | none => trivial
    | some e => exact hinit e rfl
  ret {keyword value} _ hvalue := by
    cases value with
    | none => trivial
    | some e => exact hvalue e rfl
  block hbody := Stmt.everyIn_iff.2 hbody
  ifThen hc hyes := ⟨hc, hyes⟩
  ifElse hc hyes hno := ⟨hc, hyes, hno⟩
  loop hc hbody := ⟨hc, hbody⟩
  function _ _ hbody := Stmt.everyIn_iff.2 hbody

section Sentences

variable {T : Token → Prop} {P : Expr → Prop} {Q : Stmt → Prop}

theorem TreeProperty.derives (h : TreeProperty T P Q) (hT : ∀ t, T t) {l : Layer} {ts : List Token}
    {e : Expr} (hd : Derives l ts e) : P e := by
  induction hd with
  | assign _ _ _ ih => exact h.assign (h.name (hT _)) ih
  | logical hop _ _ ihl ihr =>
    exact h.logical (hT _) (Layer.joining?_of_mem_logicalOperators hop) ihl ihr
  | binary hop _ _ ihl ihr =>
    exact h.binary (hT _) (Layer.joining?_of_mem_binaryOperators hop) ihl ihr
  | @unary op _ _ hop _ ih =>
    have hk : op.kind.opening? = some .operator ∧ op.kind.isStep = false := by
      simp only [List.mem_cons, List.not_mem_nil, or_false] at hop
      rcases hop with hop | hop | hop <;> rw [hop] <;> decide
    refine h.unary (hT _) hk.1 ?_ ih
    intro hstep
    rw [hk.2] at hstep
    cases hstep
  | @stepBefore op _ hop _ =>
    have hk : op.kind.opening? = some .operator := by
      simp only [List.mem_cons, List.not_mem_nil, or_false] at hop
      rcases hop with hop | hop <;> rw [hop] <;> decide
    exact h.unary (hT _) hk (fun _ => rfl) (h.name (hT _))
  | @stepAfter _ op _ hop =>
    have hk : op.kind.joining? = some (.step, .step) := by
      simp only [List.mem_cons, List.not_mem_nil, or_false] at hop
      rcases hop with hop | hop <;> rw [hop] <;> decide
    exact h.step (hT _) hk (h.name (hT _))
  | call _ _ _ _ _ _ ihcallee ihargs =>
    refine h.call (hT _) ihcallee ?_
    intro e he
    obtain ⟨a, ha, rfl⟩ := List.mem_map.1 he
    exact ihargs a ha
  | name _ => exact h.name (hT _)
  | literal _ _ => exact h.literal _
  | yes _ => exact h.literal _
  | no _ => exact h.literal _
  | nil _ => exact h.literal _
  | group _ _ _ ih => exact h.group ih
  | tighter _ ih => exact ih

private theorem TreeProperty.optionally (h : TreeProperty T P Q) (hT : ∀ t, T t) {ts : List Token}
    {o : Option Expr} (ho : Optionally ts o) : ∀ e ∈ o, P e := by
  intro e he
  cases ho with
  | absent => cases he
  | given hd =>
    cases he
    exact h.derives hT hd

private theorem TreeProperty.variableClause (h : TreeProperty T P Q) (hT : ∀ t, T t)
    {ts : List Token} {st : Stmt} (hv : VariableClause ts st) : Q st := by
  cases hv with
  | plain _ _ _ =>
    apply h.var (hT _)
    intro e he
    cases he
  | initialized _ _ _ hd _ =>
    apply h.var (hT _)
    intro e he
    cases he
    exact h.derives hT hd

theorem TreeProperty.forBlock (h : TreeProperty T P Q) {init : Option Stmt}
    {c increment : Option Expr} {body : Stmt} (hi : ∀ st ∈ init, Q st) (hc : ∀ e ∈ c, P e)
    (hn : ∀ e ∈ increment, P e) (hbody : Q body) : Q (forBlock init c increment body) := by
  have hcondition : P (c.getD (.literal (.bool true))) := by
    cases c with
    | none => exact h.literal _
    | some e => exact hc e rfl
  have haround := h.around (c := ⟨init, c.getD (.literal (.bool true)), increment⟩)
    ⟨hi, hcondition, hn⟩ hbody
  cases increment <;> exact haround

theorem TreeProperty.sentence (h : TreeProperty T P Q) (hT : ∀ t, T t) {f : Form} {ts : List Token}
    {st : Stmt} (hs : Sentence f ts st) : Q st := by
  have hbodies {body : List (List Token × Stmt)} (ih : ∀ d ∈ body, Q d.2) :
      ∀ st ∈ body.map Prod.snd, Q st := by
    intro st hst
    obtain ⟨d, hd, rfl⟩ := List.mem_map.1 hst
    exact ih d hd
  induction hs with
  | expression hd _ => exact h.expression (h.derives hT hd)
  | print _ hd _ => exact h.print (hT _) (h.derives hT hd)
  | ret _ ho _ => exact h.ret (hT _) (h.optionally hT ho)
  | block _ _ _ ih => exact h.block (hbodies ih)
  | ifThen _ _ hd _ _ ih => exact h.ifThen (h.derives hT hd) ih
  | ifElse _ _ hd _ _ _ _ ihyes ihno => exact h.ifElse (h.derives hT hd) ihyes ihno
  | loop _ _ hd _ _ ih => exact h.loop (h.derives hT hd) ih
  | forLoop _ _ hi hc _ hn _ _ ih =>
    refine h.forBlock ?_ (h.optionally hT hc) (h.optionally hT hn) ih
    intro st hst
    cases hi with
    | absent _ => cases hst
    | binding hv =>
      cases hst
      exact h.variableClause hT hv
    | expression hd _ =>
      cases hst
      exact h.expression (h.derives hT hd)
  | ofStatement _ ih => exact ih
  | binding hv => exact h.variableClause hT hv
  | function _ _ _ _ _ _ _ _ _ _ ih => exact h.function (hT _) (fun _ _ => hT _) (hbodies ih)

/-- A program in which nothing is wrong has the property even if broken statements do not. -/
theorem TreeProperty.clean (h : TreeProperty T P Q) (hT : ∀ t, T t) {interactive : Bool}
    {tokens : List Token} (hclean : (Program.ofTokens interactive tokens).report = []) :
    ∀ st ∈ (Program.ofTokens interactive tokens).statements, Q st := by
  let semicolon : Token := ⟨.semicolon, ";", none, 1⟩
  have hk : semicolon.kind = .semicolon := rfl
  have herrors : (Program.ofTokens interactive tokens).errors = [] := List.map_eq_nil_iff.1 hclean
  have hread : Grammar.declarations (.ofTokens interactive tokens) (input tokens) =
      ⟨(Program.ofTokens interactive tokens).statements, []⟩ := by
    rw [← herrors]
    rfl
  obtain ⟨lent, -, body, hbody, -, hstatements⟩ :=
    exists_isProgram_of_declarations hk hread
  intro st hst
  rw [hstatements] at hst
  obtain ⟨d, hd, rfl⟩ := List.mem_map.1 hst
  exact h.sentence hT (hbody d hd)

end Sentences

end Grammar

namespace Program

/-- Whatever the tokens, every operator in the trees that are read has a meaning. -/
theorem operable_ofTokens (interactive : Bool) (tokens : List Token) :
    ∀ st ∈ (ofTokens interactive tokens).statements, st.Operable :=
  (Grammar.treeProperty_operable True).ofTokens trivial interactive fun _ _ => trivial

theorem wellFormed_ofTokens {interactive : Bool} {tokens : List Token}
    (h : (ofTokens interactive tokens).report = []) :
    ∀ st ∈ (ofTokens interactive tokens).statements, st.WellFormed :=
  (Grammar.treeProperty_operable False).clean (fun _ => trivial) h

end Program

end Scriptlet
