import Scriptlet.Grammar.Expression

namespace Scriptlet

/-- A keyword that starts a statement. -/
def TokenKind.startsStatement : TokenKind → Bool
  | .kwClass | .kwFun | .kwVar | .kwFor | .kwIf | .kwWhile | .kwPrint | .kwReturn => true
  | _ => false

namespace Grammar

/-- Drops the token at which reading failed, and then all up to the next semicolon or to the next
keyword that starts a statement. -/
def resume : List Token → List Token
  | [] => []
  | t :: ts =>
    if t.kind = .semicolon then ts
    else match ts with
      | [] => []
      | u :: us => if u.kind.startsStatement then u :: us else resume (u :: us)

private theorem length_resume (t : Token) (ts : List Token) :
    (resume (t :: ts)).length ≤ ts.length := by
  induction ts generalizing t with
  | nil => unfold resume; split <;> simp
  | cons u us ih =>
    rw [resume]; split
    · exact Nat.le_refl _
    split
    · exact Nat.le_refl _
    · exact Nat.le_succ_of_le (ih u)

def expressionStatement (s : Setting) (ts : List Token) : Reply Stmt :=
  (expression s .lowest ts).bind fun e rest =>
    (endStatement s .expressionNotEnded rest).map fun _ => .expression e

def printStatement (s : Setting) (keyword : Token) (ts : List Token) : Reply Stmt :=
  (expression s .lowest ts).bind fun e rest =>
    (endStatement s .printNotEnded rest).map fun _ => .print keyword e

/-- What follows `return`: at a semicolon or at the end there is no value. -/
def returnStatement (s : Setting) (keyword : Token) (ts : List Token) : Reply Stmt :=
  (if ts.isEmpty || nextIs .semicolon ts then .done none ts []
   else (expression s .lowest ts).map some).bind fun value rest =>
    (endStatement s .returnNotEnded rest).map fun _ => .ret keyword value

/-- What follows `var`. -/
def variableDeclaration (s : Setting) (ts : List Token) : Reply Stmt :=
  (expect s .identifier .noVariableName ts).bind fun name rest =>
  (if nextIs .equal rest then (expression s .lowest rest.tail).map some
   else .done none rest []).bind fun init rest =>
  (endStatement s .variableNotEnded rest).map fun _ => .var name init

/-- A condition in parentheses. -/
def condition (s : Setting) (opened closed : Fault) (ts : List Token) : Reply Expr :=
  (expect s .leftParen opened ts).bind fun _ rest =>
  (expression s .lowest rest).bind fun e rest =>
  (expect s .rightParen closed rest).map fun _ => e

/-- Names set apart by commas, after the `count` that were read before. -/
def parametersWithin (s : Setting) (count : Nat) (ts : List Token) :
    Bounded ts.length (List Token) :=
  Bounded.addNotes (overLimit s .tooManyParameters count ts)
    ((expectWithin s .identifier .noParameterName ts).bind fun t rest _ =>
      if nextIs .comma rest then
        ((parametersWithin s (count + 1) rest.tail).map (t :: ·)).afterNext.loosen
      else .done [t] rest)
termination_by ts.length

def parameters (s : Setting) (count : Nat) (ts : List Token) : Reply (List Token) :=
  (parametersWithin s count ts).1

theorem parameters_eq (s : Setting) (count : Nat) (ts : List Token) :
    parameters s count ts =
      ((expect s .identifier .noParameterName ts).bind fun t rest =>
        if nextIs .comma rest then (parameters s (count + 1) rest.tail).map (t :: ·)
        else .done [t] rest []).addNotes (overLimit s .tooManyParameters count ts) := by
  rw [parameters, parametersWithin, Bounded.val_addNotes]
  refine congrArg _ (Bounded.val_bind _ _ _ fun t rest _ => ?_)
  split
  · simp [parameters]
  · rfl

/-- What follows `fun`, up to the brace that opens the body. -/
def functionHead (s : Setting) (ts : List Token) : Reply (Token × List Token) :=
  (expect s .identifier .noFunctionName ts).bind fun name rest =>
  (expect s .leftParen .noParameterList rest).bind fun _ rest =>
  (if nextIs .rightParen rest then .done [] rest [] else parameters s 0 rest).bind fun params rest =>
  (expect s .rightParen .parametersNotClosed rest).bind fun _ rest =>
  (expect s .leftBrace .noFunctionBody rest).map fun _ => (name, params)

structure ForClauses where
  init : Option Stmt
  condition : Expr
  increment : Option Expr

/-- What follows `for`. A missing condition is always true. -/
def forClauses (s : Setting) (ts : List Token) : Reply ForClauses :=
  (expect s .leftParen .forNotOpened ts).bind fun _ rest =>
  (if nextIs .semicolon rest then .done none rest.tail []
   else if nextIs .kwVar rest then (variableDeclaration s rest.tail).map some
   else (expressionStatement s rest).map some).bind fun init rest =>
  (if nextIs .semicolon rest then .done (.literal (.bool true)) rest []
   else expression s .lowest rest).bind fun condition rest =>
  (endStatement s .forConditionNotEnded rest).bind fun _ rest =>
  (if nextIs .rightParen rest then .done none rest []
   else (expression s .lowest rest).map some).bind fun increment rest =>
  (expect s .rightParen .forNotClosed rest).map fun _ => ⟨init, condition, increment⟩

/-- A `for` is a block: the initializer, then a loop that runs the body and the increment. -/
def ForClauses.around (c : ForClauses) (body : Stmt) : Stmt :=
  let body := match c.increment with
    | none => body
    | some e => .block [body, .expression e]
  .block (c.init.toList ++ [.loop c.condition body])

theorem expressionStatement_within (s : Setting) (ts : List Token) :
    (expressionStatement s ts).Within ts.length :=
  (expression_within ..).bind fun _ _ _ => (endStatement_within ..).map _

private theorem printStatement_within (s : Setting) (keyword : Token) (ts : List Token) :
    (printStatement s keyword ts).Within ts.length :=
  (expression_within ..).bind fun _ _ _ => (endStatement_within ..).map _

theorem optional_within {α : Type} {r : Reply α} {a : α} {ts : List Token} {b : Bool}
    (hr : r.Within ts.length) :
    (if b then .done a ts [] else r).Within (ts.length + 1) := by
  split
  · exact Nat.lt_succ_self _
  · exact hr.mono (Nat.le_succ _)

private theorem returnStatement_within (s : Setting) (keyword : Token) (ts : List Token) :
    (returnStatement s keyword ts).Within (ts.length + 1) :=
  (optional_within ((expression_within ..).map _)).bind fun _ _ _ => (endStatement_within ..).map _

theorem variableDeclaration_within (s : Setting) (ts : List Token) :
    (variableDeclaration s ts).Within ts.length := by
  refine (expect_within ..).bind fun _ rest _ => Reply.Within.bind ?_ fun _ _ _ =>
    (endStatement_within ..).map _
  split
  · exact ((expression_within ..).map _).afterNext.mono (Nat.le_succ _)
  · exact Nat.lt_succ_self _

theorem condition_within (s : Setting) (opened closed : Fault) (ts : List Token) :
    (condition s opened closed ts).Within ts.length :=
  (expect_within ..).bind fun _ _ _ =>
    ((expression_within ..).mono (Nat.le_succ _)).bind fun _ _ _ =>
      ((expect_within ..).map _).mono (Nat.le_succ _)

theorem parameters_within (s : Setting) (count : Nat) (ts : List Token) :
    (parameters s count ts).Within ts.length :=
  (parametersWithin s count ts).2

theorem functionHead_within (s : Setting) (ts : List Token) :
    (functionHead s ts).Within ts.length :=
  (expect_within ..).bind fun _ _ _ =>
    ((expect_within ..).mono (Nat.le_succ _)).bind fun _ _ _ =>
      (optional_within (parameters_within ..)).bind fun _ _ _ =>
        ((expect_within ..).mono (Nat.le_succ _)).bind fun _ _ _ =>
          ((expect_within ..).map _).mono (Nat.le_succ _)

theorem forClauses_within (s : Setting) (ts : List Token) :
    (forClauses s ts).Within ts.length := by
  refine (expect_within ..).bind fun _ rest _ => Reply.Within.bind ?_ fun _ _ _ =>
    (optional_within (expression_within ..)).bind fun _ _ _ =>
      (endStatement_within ..).bind fun _ _ _ =>
        (optional_within ((expression_within ..).map _)).bind fun _ _ _ =>
          ((expect_within ..).map _).mono (Nat.le_succ _)
  split
  · simp only [Reply.Within, List.length_tail]; omega
  split
  · exact ((variableDeclaration_within ..).map _).afterNext.mono (Nat.le_succ _)
  · exact ((expressionStatement_within ..).map _).mono (Nat.le_succ _)

/-- A declaration that was read, or a broken statement in place of one that was not, with the tokens
behind it and all that was found wrong. -/
structure Item where
  stmt : Stmt
  rest : List Token
  errors : List ParseError

def Reply.settle : Reply Stmt → Item
  | .done stmt rest notes => ⟨stmt, rest, notes⟩
  | .failed e rest notes => ⟨.broken, resume rest, notes ++ [e]⟩

theorem Reply.length_settle {n : Nat} {r : Reply Stmt} (h : r.Within (n + 1)) :
    r.settle.rest.length ≤ n := by
  match r, h with
  | .done _ _ _, h => exact Nat.le_of_lt_succ h
  | .failed _ [] _, _ => exact Nat.zero_le _
  | .failed _ (t :: ts) _, h => exact Nat.le_trans (length_resume t ts) (Nat.le_of_succ_le_succ h)

mutual

def statementWithin (s : Setting) : (ts : List Token) → Bounded ts.length Stmt
  | [] => ⟨expressionStatement s [], expressionStatement_within ..⟩
  | t :: ts =>
    match t.kind with
    | .kwPrint => ⟨printStatement s t ts, (printStatement_within ..).mono (Nat.le_succ _)⟩
    | .kwReturn => ⟨returnStatement s t ts, returnStatement_within ..⟩
    | .leftBrace => ((blockWithin s ts).map .block).loosen
    | .kwIf =>
      Bounded.bind ⟨condition s .ifNotOpened .ifNotClosed ts, (condition_within ..).mono (Nat.le_succ _)⟩
        fun c rest _ => ((statementWithin s rest).bind fun yes rest _ =>
          if nextIs .kwElse rest then
            ((statementWithin s rest.tail).map (.ifElse c yes)).afterNext.loosen
          else .done (.ifThen c yes) rest).loosen
    | .kwWhile =>
      Bounded.bind
        ⟨condition s .whileNotOpened .whileNotClosed ts, (condition_within ..).mono (Nat.le_succ _)⟩
        fun c rest _ => ((statementWithin s rest).map (.loop c)).loosen
    | .kwFor =>
      Bounded.bind ⟨forClauses s ts, (forClauses_within ..).mono (Nat.le_succ _)⟩
        fun c rest _ => ((statementWithin s rest).map c.around).loosen
    | _ => ⟨expressionStatement s (t :: ts), expressionStatement_within ..⟩
termination_by ts => 3 * ts.length + 0
decreasing_by
  all_goals simp only [List.length_cons, List.length_tail] at *
  all_goals omega

/-- A declaration that starts with `t`. -/
def itemWithin (s : Setting) (t : Token) (ts : List Token) :
    { item : Item // item.rest.length ≤ ts.length } :=
  let r : Bounded (ts.length + 1) Stmt :=
    match t.kind with
    | .kwVar => ⟨variableDeclaration s ts, (variableDeclaration_within ..).mono (Nat.le_succ _)⟩
    | .kwFun =>
      Bounded.bind ⟨functionHead s ts, (functionHead_within ..).mono (Nat.le_succ _)⟩
        fun (name, params) rest _ => ((blockWithin s rest).map (.function name params)).loosen
    | _ => statementWithin s (t :: ts)
  ⟨r.1.settle, r.1.length_settle r.2⟩
termination_by 3 * ts.length + 4

/-- The declarations of a block, and the brace that closes it. -/
def blockWithin (s : Setting) : (ts : List Token) → Bounded ts.length (List Stmt)
  | [] => .failed (s.error .blockNotClosed []) []
  | t :: ts =>
    if t.kind = .rightBrace then .done [] ts
    else
      match itemWithin s t ts with
      | ⟨item, h⟩ =>
        (((blockWithin s item.rest).map (item.stmt :: ·)).addNotes item.errors).mono
          (Nat.le_succ_of_le h)
termination_by ts => 3 * ts.length + 2

end

def statement (s : Setting) (ts : List Token) : Reply Stmt := (statementWithin s ts).1

def block (s : Setting) (ts : List Token) : Reply (List Stmt) := (blockWithin s ts).1

/-- What follows `fun`. -/
def functionDeclaration (s : Setting) (ts : List Token) : Reply Stmt :=
  (functionHead s ts).bind fun (name, params) rest => (block s rest).map (.function name params)

/-- A declaration or a statement. -/
def declaration (s : Setting) (ts : List Token) : Reply Stmt :=
  match ts with
  | [] => statement s []
  | t :: ts =>
    match t.kind with
    | .kwVar => variableDeclaration s ts
    | .kwFun => functionDeclaration s ts
    | _ => statement s (t :: ts)

/-- Reads a declaration and settles for a broken statement where there is none. -/
def item (s : Setting) (ts : List Token) : Item := (declaration s ts).settle

private theorem val_itemWithin (s : Setting) (t : Token) (ts : List Token) :
    (itemWithin s t ts).1 = item s (t :: ts) := by
  rw [itemWithin, item, declaration]
  refine congrArg Reply.settle ?_
  dsimp only
  split
  · rfl
  · exact Bounded.val_bind _ _ _ fun _ _ _ => (Bounded.val_loosen _).trans (Bounded.val_map ..)
  · rfl

theorem length_item (s : Setting) (t : Token) (ts : List Token) :
    (item s (t :: ts)).rest.length ≤ ts.length :=
  val_itemWithin s t ts ▸ (itemWithin s t ts).2

theorem block_nil (s : Setting) :
    block s [] = .failed (s.error .blockNotClosed []) [] [] := by
  simp [block, blockWithin]

theorem block_cons (s : Setting) (t : Token) (ts : List Token) :
    block s (t :: ts) =
      if t.kind = .rightBrace then .done [] ts []
      else ((block s (item s (t :: ts)).rest).map ((item s (t :: ts)).stmt :: ·)).addNotes
        (item s (t :: ts)).errors := by
  rw [block, blockWithin, ← val_itemWithin]
  split
  · rfl
  · exact congrArg (Reply.addNotes _) (Bounded.val_map ..)

theorem statement_nil (s : Setting) : statement s [] = expressionStatement s [] := by
  simp [statement, statementWithin]

theorem statement_cons (s : Setting) (t : Token) (ts : List Token) :
    statement s (t :: ts) =
      match t.kind with
      | .kwPrint => printStatement s t ts
      | .kwReturn => returnStatement s t ts
      | .leftBrace => (block s ts).map .block
      | .kwIf =>
        (condition s .ifNotOpened .ifNotClosed ts).bind fun c rest =>
        (statement s rest).bind fun yes rest =>
          if nextIs .kwElse rest then (statement s rest.tail).map (.ifElse c yes)
          else .done (.ifThen c yes) rest []
      | .kwWhile =>
        (condition s .whileNotOpened .whileNotClosed ts).bind fun c rest =>
          (statement s rest).map (.loop c)
      | .kwFor => (forClauses s ts).bind fun c rest => (statement s rest).map c.around
      | _ => expressionStatement s (t :: ts) := by
  rw [statement, statementWithin]
  split
  · rfl
  · rfl
  · exact (Bounded.val_loosen _).trans (Bounded.val_map ..)
  · refine Bounded.val_bind _ _ _ fun c rest _ => (Bounded.val_loosen _).trans ?_
    refine Bounded.val_bind _ _ _ fun yes rest _ => ?_
    split
    · simp [statement]
    · rfl
  · exact Bounded.val_bind _ _ _ fun _ _ _ => (Bounded.val_loosen _).trans (Bounded.val_map ..)
  · exact Bounded.val_bind _ _ _ fun _ _ _ => (Bounded.val_loosen _).trans (Bounded.val_map ..)
  · rfl

end Grammar

end Scriptlet
