import Scriptlet.Proofs.Grammar.TapeExpression

namespace Scriptlet

open Grammar Walk Walker

/-- A declaration with what is settled for in its place always succeeds. -/
def Grammar.Item.reply (item : Item) : Reply Stmt := .done item.stmt item.rest item.errors

/-- A program, which is always read to its end. -/
def Program.reply (p : Program) : Reply (List Stmt) := .done p.statements [] p.errors

namespace Tape

variable {tape : Tape} {s : Setting} {input : List Token} {i n : Nat}

theorem Holds.expression (h : tape.Holds s input) (m : Precedence) (hi : i ≤ input.length)
    (hn : 4 * (input.length - i) + 1 ≤ n) :
    (tape.expression Walker n m i).Follows input (Grammar.expression s m (input.drop i)) :=
  (h.expressionsFollow n).expression m hi hn

theorem Holds.expressionStatement (h : tape.Holds s input) (hi : i ≤ input.length)
    (hn : 4 * (input.length - i) + 1 ≤ n) :
    (tape.expressionStatement Walker n i).Follows input (Grammar.expressionStatement s (input.drop i)) := by
  apply follows_bind (h.expression .lowest hi hn) (expression_within ..)
  intro e j hj _
  exact follows_map (h.endStatement .expressionNotEnded hj) _

theorem Holds.printStatement (h : tape.Holds s input) {t : Token}
    (hadvance : tape.advance i = .done t (i + 1) []) (hi : i + 1 ≤ input.length)
    (hn : 4 * (input.length - (i + 1)) + 1 ≤ n) :
    (tape.printStatement Walker n i).Follows input (Grammar.printStatement s t (input.drop (i + 1))) := by
  rw [Tape.printStatement, bind_look hadvance]
  apply follows_bind (h.expression .lowest hi hn) (expression_within ..)
  intro e j hj _
  exact follows_map (h.endStatement .printNotEnded hj) _

theorem Holds.optional (h : tape.Holds s input) {test : Walker Bool} {b : Bool}
    (htest : test i = .done b i []) (hi : i ≤ input.length) (hn : 4 * (input.length - i) + 1 ≤ n) :
    (tape.optional Walker test n i).Follows input
      (if b then .done none (input.drop i) []
        else (Grammar.expression s .lowest (input.drop i)).map some) := by
  rw [Tape.optional, bind_look htest]
  split
  · exact .done hi rfl
  · exact follows_map (h.expression .lowest hi hn) _

theorem Holds.returnStatement (h : tape.Holds s input) {t : Token}
    (hadvance : tape.advance i = .done t (i + 1) []) (hi : i + 1 ≤ input.length)
    (hn : 4 * (input.length - (i + 1)) + 1 ≤ n) :
    (tape.returnStatement Walker n i).Follows input (Grammar.returnStatement s t (input.drop (i + 1))) := by
  rw [Tape.returnStatement, bind_look hadvance]
  apply follows_bind (h.optional (h.checkOrEnd (by decide) hi) hi hn)
    (optional_within ((expression_within ..).map _))
  intro value j hj _
  exact follows_map (h.endStatement .returnNotEnded hj) _

theorem Holds.initialValue (h : tape.Holds s input) (hi : i ≤ input.length)
    (hn : 4 * (input.length - i) + 1 ≤ n) :
    (tape.initialValue Walker n i).Follows input
      (if nextIs .equal (input.drop i) then
        (Grammar.expression s .lowest (input.drop i).tail).map some
      else .done none (input.drop i) []) := by
  rw [Tape.initialValue, bind_look (h.eat (by decide) hi)]
  cases hnext : nextIs .equal (input.drop i) with
  | false => exact .done hi rfl
  | true =>
    rw [if_pos rfl, if_pos rfl, if_pos rfl, List.tail_drop]
    exact follows_map (h.expression .lowest (succ_le_of_nextIs hnext) (by omega)) _

private theorem initialValue_within (s : Setting) (ts : List Token) :
    (if nextIs .equal ts then (Grammar.expression s .lowest ts.tail).map some
      else .done none ts [] : Reply (Option Expr)).Within (ts.length + 1) := by
  split
  · exact ((expression_within ..).map _).afterNext.mono (Nat.le_succ _)
  · exact Nat.lt_succ_self _

theorem Holds.variableDeclaration (h : tape.Holds s input) {t : Token}
    (hadvance : tape.advance i = .done t (i + 1) []) (hi : i + 1 ≤ input.length)
    (hn : 4 * (input.length - (i + 1)) + 1 ≤ n) :
    (tape.variableDeclaration Walker n i).Follows input
      (Grammar.variableDeclaration s (input.drop (i + 1))) := by
  rw [Tape.variableDeclaration, bind_look hadvance]
  apply follows_bind (h.expect (by decide) (by simp) .noVariableName hi) (expect_within ..)
  intro name j hj hless
  rw [List.length_drop] at hless
  apply follows_bind (h.initialValue hj (by omega)) (initialValue_within ..)
  intro init k hk _
  exact follows_map (h.endStatement .variableNotEnded hk) _

theorem Holds.condition (h : tape.Holds s input) (opened closed : Fault) (hi : i ≤ input.length)
    (hn : 4 * (input.length - i) + 1 ≤ n) :
    (tape.condition Walker opened closed n i).Follows input
      (Grammar.condition s opened closed (input.drop i)) := by
  apply follows_bind (h.expect (by decide) (by simp) opened hi) (expect_within ..)
  intro _ j hj hless
  rw [List.length_drop] at hless
  apply follows_bind (h.expression .lowest hj (by omega)) (expression_within ..)
  intro e k hk _
  exact follows_map (h.expect (by decide) (by simp) closed hk) _

theorem Holds.functionHead (h : tape.Holds s input) (hi : i ≤ input.length)
    (hn : input.length - i < n) :
    (tape.functionHead Walker n i).Follows input (Grammar.functionHead s (input.drop i)) := by
  apply follows_bind (h.expect (by decide) (by simp) .noFunctionName hi) (expect_within ..)
  intro name j hj hless
  rw [List.length_drop] at hless
  apply follows_bind (h.expect (by decide) (by simp) .noParameterList hj) (expect_within ..)
  intro _ k hk hless'
  rw [List.length_drop] at hless'
  have hone (l : Nat) (hl : l ≤ input.length) (_ : input.length - l ≤ input.length - k) :
      (tape.expect Walker .identifier .noParameterName l).Follows input
        (Grammar.expect s .identifier .noParameterName (input.drop l)) :=
    h.expect (by decide) (by simp) .noParameterName hl
  have hfew : input.length - k < n := by omega
  have hparams := h.parenthesized (readsCommaList_parameters s)
    (expect_within s .identifier .noParameterName) hone hfew hk
  apply follows_bind hparams (optional_within (parameters_within ..))
  intro params l hl _
  apply follows_bind (h.expect (by decide) (by simp) .parametersNotClosed hl) (expect_within ..)
  intro _ m hm _
  exact follows_map (h.expect (by decide) (by simp) .noFunctionBody hm) _

theorem Holds.initializer (h : tape.Holds s input) (hi : i ≤ input.length)
    (hn : 4 * (input.length - i) + 1 ≤ n) :
    (tape.initializer Walker n i).Follows input
      (if nextIs .semicolon (input.drop i) then .done none (input.drop i).tail []
       else if nextIs .kwVar (input.drop i) then
        (Grammar.variableDeclaration s (input.drop i).tail).map some
       else (Grammar.expressionStatement s (input.drop i)).map some) := by
  have hexpression := follows_map (h.expressionStatement hi hn) some
  rw [Tape.initializer]
  cases h.position hi with
  | ending t u _ hdrop hpeek _ hend _ =>
    rw [bind_look hpeek, hend]
    rw [hdrop] at hexpression ⊢
    exact hexpression
  | token t hlt hdrop hpeek hadvance _ _ _ =>
    have hnext (kind : TokenKind) : nextIs kind (input.drop i) = (t.kind == kind) := by
      rw [hdrop, nextIs]
    rw [bind_look hpeek, hnext, hnext, List.tail_drop]
    by_cases hsemicolon : t.kind = .semicolon
    · rw [hsemicolon]
      dsimp only
      rw [bind_look hadvance]
      exact .done hlt rfl
    by_cases hvar : t.kind = .kwVar
    · rw [hvar]
      exact follows_map (h.variableDeclaration hadvance hlt (by omega)) some
    · rw [if_neg (by simpa using hsemicolon), if_neg (by simpa using hvar)]
      refine follows_of_eq ?_ hexpression
      split
      · exact absurd ‹_› hsemicolon
      · exact absurd ‹_› hvar
      · rfl

private theorem initializer_within (s : Setting) (ts : List Token) :
    (if nextIs .semicolon ts then .done none ts.tail []
      else if nextIs .kwVar ts then (Grammar.variableDeclaration s ts.tail).map some
      else (Grammar.expressionStatement s ts).map some : Reply (Option Stmt)).Within
      (ts.length + 1) := by
  split
  · rw [Reply.Within, List.length_tail]
    omega
  split
  · exact ((variableDeclaration_within ..).map _).afterNext.mono (Nat.le_succ _)
  · exact ((expressionStatement_within ..).map _).mono (Nat.le_succ _)

theorem Holds.forCondition (h : tape.Holds s input) (hi : i ≤ input.length)
    (hn : 4 * (input.length - i) + 1 ≤ n) :
    (tape.forCondition Walker n i).Follows input
      (if nextIs .semicolon (input.drop i) then .done (.literal (.bool true)) (input.drop i) []
       else Grammar.expression s .lowest (input.drop i)) := by
  rw [Tape.forCondition, bind_look (h.check (by decide) hi)]
  split
  · exact .done hi rfl
  · exact h.expression .lowest hi hn

theorem Holds.forClauses (h : tape.Holds s input) (hi : i ≤ input.length)
    (hn : 4 * (input.length - i) + 1 ≤ n) :
    (tape.forClauses Walker n i).Follows input (Grammar.forClauses s (input.drop i)) := by
  apply follows_bind (h.expect (by decide) (by simp) .forNotOpened hi) (expect_within ..)
  intro _ j hj hless
  rw [List.length_drop] at hless
  apply follows_bind (h.initializer hj (by omega)) (initializer_within ..)
  intro init k hk hless'
  rw [List.length_drop] at hless'
  apply follows_bind (h.forCondition hk (by omega)) (optional_within (expression_within ..))
  intro condition l hl hless''
  rw [List.length_drop] at hless''
  apply follows_bind (h.endStatement .forConditionNotEnded hl) (endStatement_within ..)
  intro _ m hm hless'''
  rw [List.length_drop] at hless'''
  apply follows_bind (h.optional (h.check (by decide) hm) hm (by omega))
    (optional_within ((expression_within ..).map _))
  intro increment o ho _
  exact follows_map (h.expect (by decide) (by simp) .forNotClosed ho) _

theorem Holds.skip (h : tape.Holds s input) {t : Token} (hi : i + 1 ≤ input.length)
    (hdrop : input.drop i = t :: input.drop (i + 1))
    (hprevious : tape.previous (i + 1) = .done t (i + 1) []) (hn : input.length - (i + 1) < n) :
    (tape.skip n (i + 1)).Follows input (.done () (resume (input.drop i)) []) := by
  induction n generalizing i t with
  | zero => omega
  | succ n ih =>
    rw [Tape.skip, hdrop, resume.eq_def]
    cases h.position hi with
    | ending u _ _ hdrop' hpeek _ hend _ =>
      rw [bind_of_done hpeek, if_pos hend]
      refine .done hi ?_
      dsimp only
      split
      · rfl
      · rw [hdrop']
    | token u hlt hdrop' hpeek hadvance hprevious' hproper _ =>
      rw [bind_of_done hpeek, if_neg hproper, bind_of_done hprevious]
      dsimp only
      split
      · exact .done hi rfl
      · rw [hdrop']
        dsimp only
        split
        · exact .done hi hdrop'
        · rw [bind_of_done hadvance, ← hdrop']
          exact ih hlt hdrop' hprevious' (by omega)

theorem Holds.synchronize (h : tape.Holds s input) (hi : i ≤ input.length)
    (hn : input.length - i < n) :
    (tape.synchronize n i).Follows input (.done .broken (resume (input.drop i)) []) := by
  have hpeek (j : Nat) (hj : j ≤ input.length) :
      ((do let _ ← tape.peek; return Stmt.broken : Walker Stmt) j).Follows input
        (.done .broken (input.drop j) []) := by
    obtain ⟨t, hpeek, -⟩ := h.exists_peek hj
    rw [bind_of_done hpeek]
    exact .done hj rfl
  rw [Tape.synchronize]
  cases h.position hi with
  | ending t u _ hdrop hpeek' hadvance hend _ =>
    have hskip : tape.skip n i = .done () i [] := by
      cases n with
      | zero => omega
      | succ n =>
        rw [Tape.skip, bind_of_done hpeek', if_pos hend]
        rfl
    have hbroken := hpeek i hi
    rw [hdrop] at hbroken ⊢
    rw [bind_of_done hadvance, bind_of_done hskip]
    exact hbroken
  | token t hlt hdrop _ hadvance hprevious _ _ =>
    rw [bind_of_done hadvance]
    have hskip := h.skip (n := n) hlt hdrop hprevious (by omega)
    refine follows_bind (g := fun _ rest => .done Stmt.broken rest []) hskip
      (Nat.lt_succ_self _) ?_
    intro _ j hj _
    exact hpeek j hj

theorem statement_within (s : Setting) (ts : List Token) :
    (Grammar.statement s ts).Within ts.length :=
  (statementWithin s ts).2

private theorem block_within (s : Setting) (ts : List Token) :
    (Grammar.block s ts).Within ts.length :=
  (blockWithin s ts).2

theorem declaration_within (s : Setting) (ts : List Token) :
    (Grammar.declaration s ts).Within ts.length := by
  unfold Grammar.declaration
  split
  · exact statement_within ..
  split
  · exact (variableDeclaration_within ..).mono (Nat.le_succ _)
  · exact ((functionHead_within ..).bind fun _ _ _ =>
      ((block_within ..).map _).mono (Nat.le_succ _)).mono (Nat.le_succ _)
  · exact statement_within ..

private theorem item_within (s : Setting) (t : Token) (ts : List Token) :
    (item s (t :: ts)).reply.Within (t :: ts).length :=
  Nat.lt_succ_of_le (length_item s t ts)

private theorem declarations_cons (s : Setting) (t : Token) (ts : List Token) :
    (declarations s (t :: ts)).reply = (item s (t :: ts)).reply.bind fun a rest =>
      (declarations s rest).reply.map (a :: ·) := by
  rw [declarations]
  simp [Program.reply, Item.reply, Reply.bind, Reply.map, Reply.addNotes]

/-- What is settled for in place of a declaration. -/
theorem Holds.recover (h : tape.Holds s input) {x : Walker Stmt} {r : Reply Stmt} {m : Nat}
    (hx : (x i).Follows input r) (hr : r.Within m) (hn : m < n) :
    (Walker.recover x (tape.synchronize n) i).Follows input r.settle.reply := by
  rw [Walker.recover]
  generalize x i = w at hx
  cases hx with
  | done hj hrest => exact .done hj hrest
  | @failed e j rest notes hj hrest =>
    subst hrest
    rw [Reply.Within, List.length_drop] at hr
    have hbroken := (h.synchronize (n := n) hj (by omega)).addNotes (notes ++ [e])
    rw [Reply.addNotes, List.append_nil] at hbroken
    exact hbroken

section Parts

variable {t : Token} (h : tape.Holds s input) (hadvance : tape.advance i = .done t (i + 1) [])
  (hi : i + 1 ≤ input.length) (hn : 4 * (input.length - (i + 1)) + 1 ≤ n)

section One

variable {one : Walker Stmt}
  (hone : ∀ j, j ≤ input.length → input.length - j ≤ input.length - (i + 1) →
    (one j).Follows input (Grammar.statement s (input.drop j)))

include h hadvance hi hn hone

theorem Holds.ifStatement :
    (tape.ifStatement Walker one n i).Follows input
      ((Grammar.condition s .ifNotOpened .ifNotClosed (input.drop (i + 1))).bind fun c rest =>
        (Grammar.statement s rest).bind fun yes rest =>
          if nextIs .kwElse rest then (Grammar.statement s rest.tail).map (.ifElse c yes)
          else .done (.ifThen c yes) rest []) := by
  rw [Tape.ifStatement, bind_look hadvance]
  apply follows_bind (h.condition _ _ hi hn) (condition_within ..)
  intro c j hj hless
  rw [List.length_drop] at hless
  apply follows_bind (hone j hj (by omega)) (statement_within ..)
  intro yes k hk hless'
  rw [List.length_drop] at hless'
  rw [bind_look (h.eat (by decide) hk)]
  cases hnext : nextIs .kwElse (input.drop k) with
  | false => exact .done hk rfl
  | true =>
    rw [if_pos rfl, if_pos rfl, if_pos rfl, List.tail_drop]
    exact follows_map (hone (k + 1) (succ_le_of_nextIs hnext) (by omega)) _

theorem Holds.whileStatement :
    (tape.whileStatement Walker one n i).Follows input
      ((Grammar.condition s .whileNotOpened .whileNotClosed (input.drop (i + 1))).bind fun c rest =>
        (Grammar.statement s rest).map (.loop c)) := by
  rw [Tape.whileStatement, bind_look hadvance]
  apply follows_bind (h.condition _ _ hi hn) (condition_within ..)
  intro c j hj hless
  rw [List.length_drop] at hless
  exact follows_map (hone j hj (by omega)) _

theorem Holds.forStatement :
    (tape.forStatement Walker one n i).Follows input
      ((Grammar.forClauses s (input.drop (i + 1))).bind fun c rest =>
        (Grammar.statement s rest).map c.around) := by
  rw [Tape.forStatement, bind_look hadvance]
  apply follows_bind (h.forClauses hi hn) (forClauses_within ..)
  intro c j hj hless
  rw [List.length_drop] at hless
  exact follows_map (hone j hj (by omega)) _

end One

variable {many : Walker (List Stmt)}
  (hmany : ∀ j, j ≤ input.length → input.length - j ≤ input.length - (i + 1) →
    (many j).Follows input (Grammar.block s (input.drop j)))

include hadvance hi hmany

private theorem follows_blockStatement :
    (tape.blockStatement Walker many i).Follows input
      ((Grammar.block s (input.drop (i + 1))).map .block) := by
  rw [Tape.blockStatement, bind_look hadvance]
  exact follows_map (hmany (i + 1) hi (Nat.le_refl _)) _

include h hn

theorem Holds.functionDeclaration :
    (tape.functionDeclaration Walker many n i).Follows input
      (Grammar.functionDeclaration s (input.drop (i + 1))) := by
  rw [Tape.functionDeclaration, bind_look hadvance]
  apply follows_bind (h.functionHead hi (by omega)) (functionHead_within ..)
  rintro ⟨name, params⟩ j hj hless
  rw [List.length_drop] at hless
  exact follows_map (hmany j hj (by omega)) _

end Parts

/-- What a bound is enough for. At one index a block reads a declaration, a declaration a statement and
a statement an expression, so their margins differ. -/
structure StatementsFollow (tape : Tape) (s : Setting) (input : List Token) (n : Nat) : Prop where
  statement {i : Nat} : i ≤ input.length → 4 * (input.length - i) + 2 ≤ n →
    (tape.statement Walker n i).Follows input (Grammar.statement s (input.drop i))
  declaration {i : Nat} : i ≤ input.length → 4 * (input.length - i) + 3 ≤ n →
    (tape.declaration Walker n i).Follows input (item s (input.drop i)).reply
  block {i : Nat} : i ≤ input.length → 4 * (input.length - i) + 4 ≤ n →
    (tape.block Walker n i).Follows input (Grammar.block s (input.drop i))

private theorem Holds.statement_succ (h : tape.Holds s input) (ih : StatementsFollow tape s input n)
    (hi : i ≤ input.length) (hn : 4 * (input.length - i) + 1 ≤ n) :
    (tape.statement Walker (n + 1) i).Follows input (Grammar.statement s (input.drop i)) := by
  have hexpression := h.expressionStatement hi hn
  rw [Tape.statement]
  cases h.position hi with
  | ending t u _ hdrop hpeek _ hend _ =>
    rw [bind_look hpeek, hend]
    rw [hdrop] at hexpression ⊢
    rw [statement_nil]
    exact hexpression
  | token t hlt hdrop hpeek hadvance _ _ _ =>
    have hone (j : Nat) (hj : j ≤ input.length) (hless : input.length - j ≤ input.length - (i + 1)) :
        (tape.statement Walker n j).Follows input (Grammar.statement s (input.drop j)) :=
      ih.statement hj (by omega)
    have hmany (j : Nat) (hj : j ≤ input.length) (hless : input.length - j ≤ input.length - (i + 1)) :
        (tape.block Walker n j).Follows input (Grammar.block s (input.drop j)) :=
      ih.block hj (by omega)
    have hn' : 4 * (input.length - (i + 1)) + 1 ≤ n := by omega
    rw [bind_look hpeek, hdrop, statement_cons]
    split
    next hk =>
      rw [hk]
      exact h.printStatement hadvance hlt hn'
    next hk =>
      rw [hk]
      exact h.returnStatement hadvance hlt hn'
    next hk =>
      rw [hk]
      exact follows_blockStatement hadvance hlt hmany
    next hk =>
      rw [hk]
      exact h.ifStatement hadvance hlt hn' hone
    next hk =>
      rw [hk]
      exact h.whileStatement hadvance hlt hn' hone
    next hk =>
      rw [hk]
      exact h.forStatement hadvance hlt hn' hone
    next =>
      rw [← hdrop]
      refine follows_of_eq ?_ hexpression
      grind

private theorem Holds.declaration_succ (h : tape.Holds s input)
    (ih : StatementsFollow tape s input n)
    (hi : i ≤ input.length) (hn : 4 * (input.length - i) + 2 ≤ n) :
    (tape.declaration Walker (n + 1) i).Follows input (item s (input.drop i)).reply := by
  have hstatement := ih.statement hi hn
  refine h.recover (m := input.length - i) ?_ ?_ (by omega)
  · cases h.position hi with
    | ending t u _ hdrop hpeek _ hend _ =>
      rw [bind_look hpeek, hend]
      rw [hdrop] at hstatement ⊢
      exact hstatement
    | token t hlt hdrop hpeek hadvance _ _ _ =>
      rw [bind_look hpeek, hdrop, Grammar.declaration]
      split
      next hk =>
        rw [hk]
        exact h.variableDeclaration hadvance hlt (by omega)
      next hk =>
        rw [hk]
        exact h.functionDeclaration hadvance hlt (by omega) fun j hj _ => ih.block hj (by omega)
      next =>
        rw [← hdrop]
        refine follows_of_eq ?_ hstatement
        grind
  · rw [← List.length_drop]
    exact declaration_within ..

private theorem Holds.block_succ (h : tape.Holds s input) (ih : StatementsFollow tape s input n)
    (hi : i ≤ input.length) (hn : 4 * (input.length - i) + 3 ≤ n) :
    (tape.block Walker (n + 1) i).Follows input (Grammar.block s (input.drop i)) := by
  have hbrace : (tape.expect Walker .rightBrace .blockNotClosed i).Follows input
      (Grammar.expect s .rightBrace .blockNotClosed (input.drop i)) :=
    h.expect (by decide) (by simp) .blockNotClosed hi
  rw [Tape.block, bind_look (h.checkOrEnd (by decide) hi)]
  cases h.position hi with
  | ending t u _ hdrop _ _ _ _ =>
    rw [hdrop] at hbrace ⊢
    rw [block_nil]
    exact follows_map hbrace _
  | token t hlt hdrop _ _ _ _ _ =>
    rw [hdrop] at hbrace ⊢
    rw [block_cons]
    by_cases hk : t.kind = .rightBrace
    · rw [expect_cons s _ _ hk] at hbrace
      rw [if_pos hk, if_pos (by rw [nextIs, hk]; rfl)]
      exact follows_map hbrace _
    · have hitem := ih.declaration hi (by omega)
      rw [hdrop] at hitem
      rw [if_neg hk, if_neg (by simpa [nextIs] using hk)]
      refine follows_bind hitem (g := fun a rest => (Grammar.block s rest).map (a :: ·))
        (item_within ..) ?_
      intro a j hj hless
      rw [List.length_cons, List.length_drop] at hless
      exact follows_map (ih.block hj (by omega)) _

theorem Holds.statementsFollow (h : tape.Holds s input) (n : Nat) :
    StatementsFollow tape s input n := by
  induction n with
  | zero =>
    constructor
    · intro i _ hn
      omega
    · intro i _ hn
      omega
    · intro i _ hn
      omega
  | succ n ih =>
    constructor
    · intro i hi hn
      exact h.statement_succ ih hi (by omega)
    · intro i hi hn
      exact h.declaration_succ ih hi (by omega)
    · intro i hi hn
      exact h.block_succ ih hi (by omega)

/-- A program is read to the end. -/
theorem Holds.program (h : tape.Holds s input) (hi : i ≤ input.length)
    (hn : 4 * (input.length - i) + 4 ≤ n) :
    (tape.program Walker n i).Follows input (declarations s (input.drop i)).reply := by
  induction n generalizing i with
  | zero => omega
  | succ n ih =>
    rw [Tape.program, bind_look (h.checkEnd hi)]
    cases h.position hi with
    | ending t u _ hdrop _ _ _ _ =>
      rw [hdrop, declarations]
      exact .done hi hdrop
    | token t hlt hdrop _ _ _ _ _ =>
      have hitem := (h.statementsFollow n).declaration hi (by omega)
      rw [hdrop] at hitem ⊢
      have hwithin := item_within s t (input.drop (i + 1))
      rw [declarations_cons]
      refine follows_bind hitem hwithin ?_
      intro a j hj hless
      rw [List.length_cons, List.length_drop] at hless
      exact follows_map (ih hj (by omega)) _

end Tape

end Scriptlet
