import Mathlib.Data.List.Basic
import Scriptlet.Tree.ReturnPlacement
import Scriptlet.Tree.Visitor

namespace Scriptlet

namespace Stmt

/-- The statements right below a statement, in the order in which they are written. -/
def parts : Stmt → List Stmt
  | .block body | .function _ _ body => body
  | .ifThen _ yes => [yes]
  | .ifElse _ yes no => [yes, no]
  | .loop _ body => [body]
  | .expression _ | .print _ _ | .var _ _ | .ret _ _ | .broken => []

private theorem sizeOf_lt_of_mem_parts {s t : Stmt} (h : t ∈ s.parts) : sizeOf t < sizeOf s := by
  cases s with
  | block body =>
    have hbody := List.sizeOf_lt_of_mem (show t ∈ body from h)
    rw [block.sizeOf_spec]
    omega
  | function name params body =>
    have hbody := List.sizeOf_lt_of_mem (show t ∈ body from h)
    rw [function.sizeOf_spec]
    omega
  | ifThen condition yes =>
    rw [List.mem_singleton.1 h, ifThen.sizeOf_spec]
    omega
  | ifElse condition yes no =>
    simp only [parts, List.mem_cons, List.not_mem_nil, or_false] at h
    rw [ifElse.sizeOf_spec]
    rcases h with rfl | rfl <;> omega
  | loop condition body =>
    rw [List.mem_singleton.1 h, loop.sizeOf_spec]
    omega
  | _ => cases h

def isFunction : Stmt → Bool
  | .function _ _ _ => true
  | _ => false

end Stmt

/-- A statement of a program and the statements that enclose it, the innermost first. -/
structure Placed where
  around : List Stmt
  here : Stmt

namespace Stmt

/-- The statement and all statements below it: each before the ones below it, and these from left to
right. -/
def preorder (around : List Stmt) (s : Stmt) : List Placed :=
  ⟨around, s⟩ :: s.parts.attach.flatMap fun t => preorder (s :: around) t.1
termination_by sizeOf s
decreasing_by exact sizeOf_lt_of_mem_parts t.2

private theorem preorder_eq (around : List Stmt) (s : Stmt) :
    s.preorder around = ⟨around, s⟩ :: s.parts.flatMap (preorder (s :: around)) := by
  rw [preorder, List.flatMap_subtype (g := preorder (s :: around)) fun _ _ => rfl, List.unattach_attach]

/-- All statements of a program in the order in which they are written. -/
def listing (program : List Stmt) : List Placed := program.flatMap (preorder [])

/-- What encloses a statement encloses all statements below it. -/
theorem around_subset (around : List Stmt) (s : Stmt) :
    ∀ p ∈ s.preorder around, around ⊆ p.around := by
  induction hk : sizeOf s using Nat.strongRecOn generalizing around s with
  | ind k ih =>
    subst hk
    intro p hp
    rw [preorder_eq, List.mem_cons, List.mem_flatMap] at hp
    rcases hp with rfl | ⟨t, ht, hp⟩
    · exact List.Subset.refl _
    · exact List.subset_of_cons_subset (ih _ (sizeOf_lt_of_mem_parts ht) _ t rfl p hp)

end Stmt

/-- What a return outside of all functions is reported as. -/
def misplacedReturn (keyword : Token) : Diagnostic :=
  .syntactic keyword.line (.lexeme keyword.lexeme) "Can't return from top-level code."

/-- The keyword of a return that no function encloses. -/
def Placed.exposed? (p : Placed) : Option Token :=
  match p.here with
  | .ret keyword _ => if p.around.any Stmt.isFunction then none else some keyword
  | _ => none

/-- A diagnostic for each return that no function encloses. -/
def exposedReport (found : List Placed) : Report := (found.filterMap Placed.exposed?).map misplacedReturn

private theorem exposedReport_singleton (p : Placed) :
    exposedReport [p] = p.exposed?.toList.map misplacedReturn := by
  rw [exposedReport, List.filterMap_cons]
  cases p.exposed? <;> rfl

/-- Nothing inside a function is exposed. -/
theorem filterMap_of_function {around : List Stmt} (h : around.any Stmt.isFunction = true)
    (ss : List Stmt) : (ss.flatMap (Stmt.preorder around)).filterMap Placed.exposed? = [] := by
  obtain ⟨f, hf, hfunction⟩ := List.any_eq_true.1 h
  apply List.filterMap_eq_nil_iff.2
  intro p hp
  obtain ⟨s, -, hp⟩ := List.mem_flatMap.1 hp
  have hinside : p.around.any Stmt.isFunction = true :=
    List.any_eq_true.2 ⟨f, s.around_subset around p hp hf, hfunction⟩
  rw [Placed.exposed?, hinside]
  split <;> rfl

/-- The state of the check: how many functions enclose the statement that is visited, and what has been
reported. -/
structure ReturnCheck where
  depth : Nat
  report : Report

namespace ReturnCheck

/-- Reports a return, unless a function encloses it. -/
def note (s : Stmt) (c : ReturnCheck) : ReturnCheck :=
  match s with
  | .ret keyword _ =>
    if c.depth = 0 then { c with report := c.report ++ [misplacedReturn keyword] } else c
  | _ => c

def visitor : Visitor ReturnCheck where
  stmt s below c := below (c.note s)
  declaration _ _ _ below c :=
    let inside := below { c with depth := c.depth + 1 }
    { inside with depth := inside.depth - 1 }

def check (c : ReturnCheck) (program : List Stmt) : ReturnCheck := visitor.visitStmts program c

/-- The state behind statements that were found in this order. -/
def noting (c : ReturnCheck) (found : List Placed) : ReturnCheck :=
  { c with report := c.report ++ if c.depth = 0 then exposedReport found else [] }

@[simp] theorem noting_nil (c : ReturnCheck) : c.noting [] = c := by
  simp [noting, exposedReport]

private theorem noting_append (c : ReturnCheck) (found more : List Placed) :
    c.noting (found ++ more) = (c.noting found).noting more := by
  by_cases h : c.depth = 0
  · simp [noting, h, exposedReport]
  · simp [noting, h]

private theorem noting_of_depth {c : ReturnCheck} (h : c.depth ≠ 0) (found : List Placed) :
    c.noting found = c := by
  simp [noting, h]

private theorem noting_cons {around : List Stmt} (h : around.any Stmt.isFunction = false)
    (c : ReturnCheck) (s : Stmt) (below : List Placed) :
    c.noting (⟨around, s⟩ :: below) = (c.note s).noting below := by
  have hone : c.noting [⟨around, s⟩] = c.note s := by
    rw [noting, exposedReport_singleton]
    cases s with
    | ret keyword value =>
      rw [Placed.exposed?, note, h]
      split <;> simp
    | _ => simp [Placed.exposed?, note]
  rw [← hone, ← noting_append, List.singleton_append]

end ReturnCheck

namespace Visitor

variable {σ : Type} {v : Visitor σ}

mutual

/-- A visitor that does nothing at expressions passes them by. -/
theorem walkExpr_of_passive (h : v.expr = fun _ below => below) : (e : Expr) → (x : σ) →
    v.walkExpr e x = x
  | .literal _, _ | .name _, _ | .step _ _, _ => rfl
  | .assign _ inner, x | .group inner, x | .unary _ inner, x => by
    rw [walkExpr, h]
    exact walkExpr_of_passive h inner x
  | .binary _ lhs rhs, x | .logical _ lhs rhs, x => by
    simp only [walkExpr, h]
    rw [walkExpr_of_passive h lhs, walkExpr_of_passive h rhs]
  | .call callee _ args, x => by
    simp only [walkExpr, h]
    rw [walkExpr_of_passive h callee, visitExprs_of_passive h args]

private theorem visitExprs_of_passive (h : v.expr = fun _ below => below) :
    (es : List Expr) → (x : σ) → v.visitExprs es x = x
  | [], _ => rfl
  | e :: es, x => by
    simp only [visitExprs, h]
    rw [walkExpr_of_passive h e, visitExprs_of_passive h es]

end

/-- Such a visitor passes on to the statements right below, if there is no declaration between. -/
theorem walkStmt_of_passive (h : v.expr = fun _ below => below) {s : Stmt}
    (hs : s.isFunction = false) (x : σ) : v.walkStmt s x = v.visitStmts s.parts x := by
  have hexpr (e : Expr) (x : σ) : v.visitExpr e x = x := by
    rw [visitExpr, h]
    exact walkExpr_of_passive h e x
  cases s with
  | expression value | print keyword value => exact hexpr value x
  | var name init | ret keyword init =>
    cases init with
    | none => rfl
    | some e => exact hexpr e x
  | block body => rfl
  | ifThen condition yes | loop condition yes =>
    rw [walkStmt, hexpr]
    rfl
  | ifElse condition yes no =>
    rw [walkStmt, hexpr]
    rfl
  | function name params body => cases hs
  | broken => rfl

end Visitor

namespace ReturnCheck

open Visitor Stmt

private theorem visitStmt_visitor (s : Stmt) (c : ReturnCheck) :
    visitor.visitStmt s c = visitor.walkStmt s (c.note s) := rfl

private theorem walkStmt_function (name : Token) (params : List Token) (body : List Stmt)
    (c : ReturnCheck) :
    visitor.walkStmt (.function name params body) c =
      let inside := visitor.visitStmts body { c with depth := c.depth + 1 }
      { inside with depth := inside.depth - 1 } := rfl

private theorem visitStmts_eq_noting {around ss : List Stmt}
    (h : ∀ s ∈ ss, ∀ c, visitor.visitStmt s c = c.noting (s.preorder around)) (c : ReturnCheck) :
    visitor.visitStmts ss c = c.noting (ss.flatMap (preorder around)) := by
  induction ss generalizing c with
  | nil =>
    rw [List.flatMap_nil, noting_nil]
    rfl
  | cons s ss ih =>
    obtain ⟨hs, hss⟩ := List.forall_mem_cons.1 h
    rw [List.flatMap_cons, noting_append, ← hs]
    exact ih hss _

/-- Below a declaration the depth is not zero, so nothing is noted whatever is found there. -/
theorem walkStmt_function_eq {name : Token} {params : List Token} {body : List Stmt}
    (h : ∀ s ∈ body, ∀ c, visitor.visitStmt s c = c.noting (s.preorder [])) (c : ReturnCheck) :
    visitor.walkStmt (.function name params body) c = c := by
  have hbelow : visitor.visitStmts body { c with depth := c.depth + 1 } =
      { c with depth := c.depth + 1 } := by
    rw [visitStmts_eq_noting h, noting_of_depth (Nat.succ_ne_zero _)]
  simp only [walkStmt_function, hbelow, Nat.add_sub_cancel]

/-- Visiting a statement notes the statements of its traversal in their order. -/
theorem visitStmt_eq_noting {around : List Stmt} (h : around.any isFunction = false) (s : Stmt)
    (c : ReturnCheck) : visitor.visitStmt s c = c.noting (s.preorder around) := by
  induction hk : sizeOf s using Nat.strongRecOn generalizing around s c with
  | ind k ih =>
    subst hk
    rw [visitStmt_visitor, preorder_eq, noting_cons h]
    cases hs : s.isFunction with
    | false =>
      have hinner : (s :: around).any isFunction = false := by rw [List.any_cons, hs, h, Bool.or_false]
      rw [walkStmt_of_passive rfl hs]
      exact visitStmts_eq_noting
        (fun t ht c => ih _ (sizeOf_lt_of_mem_parts ht) hinner t c rfl) _
    | true =>
      have hinner : (s :: around).any isFunction = true := by rw [List.any_cons, hs, Bool.true_or]
      cases s with
      | function name params body =>
        have hnone : c.noting (body.flatMap (preorder (function name params body :: around))) = c := by
          simp [noting, exposedReport, filterMap_of_function hinner]
        have hwalk : visitor.walkStmt (.function name params body) c = c :=
          walkStmt_function_eq
            (fun t ht c => ih _ (sizeOf_lt_of_mem_parts ht) List.any_nil t c rfl) c
        exact hwalk.trans hnone.symm
      | _ => cases hs

private theorem check_eq_noting (c : ReturnCheck) (program : List Stmt) :
    c.check program = c.noting (listing program) :=
  visitStmts_eq_noting (fun s _ c => visitStmt_eq_noting List.any_nil s c) c

/-- One check of several programs reports what a check of its own would report for each of them. -/
theorem foldl_check (programs : List (List Stmt)) (report : Report) :
    programs.foldl check ⟨0, report⟩ =
      ⟨0, report ++ programs.flatMap fun program => exposedReport (listing program)⟩ := by
  induction programs generalizing report with
  | nil => simp
  | cons program programs ih =>
    rw [List.foldl_cons, check_eq_noting, noting, if_pos rfl, ih, List.flatMap_cons,
      List.append_assoc]

end ReturnCheck

namespace Stmt

private theorem filterMap_preorder_eq (around : List Stmt) (s : Stmt) :
    (s.preorder around).filterMap Placed.exposed? = (Placed.exposed? ⟨around, s⟩).toList ++
      (s.parts.flatMap (preorder (s :: around))).filterMap Placed.exposed? := by
  rw [preorder_eq, List.filterMap_cons]
  cases Placed.exposed? ⟨around, s⟩ <;> rfl

private theorem exposedReturnsOf_eq_flatMap (ss : List Stmt) :
    exposedReturnsOf ss = ss.flatMap exposedReturns := by
  induction ss with
  | nil => rfl
  | cons s ss ih => rw [exposedReturnsOf, ih, List.flatMap_cons]

private theorem exposedReturns_eq {around : List Stmt} (h : around.any isFunction = false)
    {s : Stmt} (hs : s.isFunction = false) :
    s.exposedReturns =
      (Placed.exposed? ⟨around, s⟩).toList ++ s.parts.flatMap exposedReturns := by
  cases s with
  | function name params body => cases hs
  | _ => simp [exposedReturns, exposedReturnsOf_eq_flatMap, parts, Placed.exposed?, h]

/-- What the traversal exposes is what is found without keeping account of the functions around. -/
theorem filterMap_preorder {around : List Stmt} (h : around.any isFunction = false) (s : Stmt) :
    (s.preorder around).filterMap Placed.exposed? = s.exposedReturns := by
  induction hk : sizeOf s using Nat.strongRecOn generalizing around s with
  | ind k ih =>
    subst hk
    rw [filterMap_preorder_eq]
    cases hs : s.isFunction with
    | false =>
      have hinner : (s :: around).any isFunction = false := by rw [List.any_cons, hs, h, Bool.or_false]
      rw [exposedReturns_eq h hs, List.filterMap_flatMap]
      congr 1
      exact List.flatMap_congr fun t ht => ih _ (sizeOf_lt_of_mem_parts ht) hinner t rfl
    | true =>
      have hinner : (s :: around).any isFunction = true := by rw [List.any_cons, hs, Bool.true_or]
      rw [filterMap_of_function hinner]
      cases s with
      | function name params body => rfl
      | _ => cases hs

private theorem filterMap_listing (program : List Stmt) :
    (listing program).filterMap Placed.exposed? = exposedReturnsOf program := by
  rw [listing, List.filterMap_flatMap, exposedReturnsOf_eq_flatMap]
  exact List.flatMap_congr fun s _ => filterMap_preorder List.any_nil s

end Stmt

namespace ReturnCheck

/-- The check of a program adds a diagnostic for each return that no function encloses, in order, and
nothing else, and leaves the depth as it was. -/
theorem check_reports_exposed_returns :
    (∀ (c : ReturnCheck) (program : List Stmt), c.check program = ⟨c.depth, c.report ++
      if c.depth = 0 then exposedReport (Stmt.listing program) else []⟩) ∧
    (∀ (programs : List (List Stmt)) (report : Report), programs.foldl check ⟨0, report⟩ =
      ⟨0, report ++ programs.flatMap fun program => exposedReport (Stmt.listing program)⟩) ∧
    ∀ program, checkReturns program = exposedReport (Stmt.listing program) := by
  refine ⟨check_eq_noting, foldl_check, ?_⟩
  intro program
  rw [checkReturns, exposedReport, Stmt.filterMap_listing]
  rfl

end ReturnCheck

end Scriptlet
