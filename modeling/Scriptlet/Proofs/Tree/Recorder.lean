import Mathlib.Data.List.Basic
import Scriptlet.Tree.Traversal
import Scriptlet.Tree.Visitor

namespace Scriptlet

/-- A node of a tree. A function statement has its declaration below it. -/
inductive Vertex where
  | expr (e : Expr)
  | stmt (s : Stmt)
  | declaration (name : Token) (params : List Token) (body : List Stmt)

namespace Vertex

/-- What a traversal sees of the node. -/
def node : Vertex → Node
  | .expr (.literal _) => .literal
  | .expr (.name _) => .name
  | .expr (.assign _ _) => .assign
  | .expr (.group _) => .group
  | .expr (.unary _ _) => .unary
  | .expr (.step _ _) => .step
  | .expr (.binary _ _ _) => .binary
  | .expr (.logical _ _ _) => .logical
  | .expr (.call _ _ _) => .call
  | .stmt (.expression _) => .expression
  | .stmt (.print _ _) => .print
  | .stmt (.var _ _) => .var
  | .stmt (.block _) => .block
  | .stmt (.ifThen _ _) | .stmt (.ifElse _ _ _) => .branch
  | .stmt (.loop _ _) => .loop
  | .stmt (.function _ _ _) => .function
  | .stmt (.ret _ _) => .ret
  | .stmt .broken => .broken
  | .declaration name _ _ => .declaration name.lexeme

/-- The nodes right below a node, in the order in which they are written. -/
def children : Vertex → List Vertex
  | .expr (.literal _) | .expr (.name _) | .expr (.step _ _) => []
  | .expr (.assign _ e) | .expr (.group e) | .expr (.unary _ e) => [.expr e]
  | .expr (.binary _ l r) | .expr (.logical _ l r) => [.expr l, .expr r]
  | .expr (.call callee _ args) => .expr callee :: args.map .expr
  | .stmt (.expression e) | .stmt (.print _ e) => [.expr e]
  | .stmt (.var _ value) | .stmt (.ret _ value) => value.toList.map .expr
  | .stmt (.block body) => body.map .stmt
  | .stmt (.ifThen c yes) => [.expr c, .stmt yes]
  | .stmt (.ifElse c yes no) => [.expr c, .stmt yes, .stmt no]
  | .stmt (.loop c body) => [.expr c, .stmt body]
  | .stmt (.function name params body) => [.declaration name params body]
  | .stmt .broken => []
  | .declaration _ _ body => body.map .stmt

noncomputable def size : Vertex → Nat
  | .expr e => sizeOf e
  | .stmt s => sizeOf s
  | .declaration _ _ body => sizeOf body

private theorem size_lt_of_mem_children {u v : Vertex} (h : u ∈ v.children) : u.size < v.size := by
  have hlist {es : List Expr} (h : u ∈ es.map .expr) : u.size < sizeOf es := by
    obtain ⟨e, he, rfl⟩ := List.mem_map.1 h
    exact List.sizeOf_lt_of_mem he
  have hbody {ss : List Stmt} (h : u ∈ ss.map .stmt) : u.size < sizeOf ss := by
    obtain ⟨s, hs, rfl⟩ := List.mem_map.1 h
    exact List.sizeOf_lt_of_mem hs
  cases v with
  | declaration name params body => exact hbody h
  | expr e =>
    cases e with
    | literal l | name t | step op t => cases h
    | assign t e | group e | unary op e =>
      rw [List.mem_singleton.1 h]
      simp only [size, Expr.assign.sizeOf_spec, Expr.group.sizeOf_spec, Expr.unary.sizeOf_spec]
      omega
    | binary op l r | logical op l r =>
      simp only [children, List.mem_cons, List.not_mem_nil, or_false] at h
      simp only [size, Expr.binary.sizeOf_spec, Expr.logical.sizeOf_spec]
      rcases h with rfl | rfl <;> simp only <;> omega
    | call callee paren args =>
      simp only [size, Expr.call.sizeOf_spec]
      rcases List.mem_cons.1 h with rfl | h
      · simp only
        omega
      · have hargs := hlist h
        simp only [size] at hargs
        omega
  | stmt s =>
    cases s with
    | broken => cases h
    | expression e | print keyword e =>
      rw [List.mem_singleton.1 h]
      simp only [size, Stmt.expression.sizeOf_spec, Stmt.print.sizeOf_spec]
      omega
    | var name value | ret keyword value =>
      cases value with
      | none => cases h
      | some e =>
        rw [List.mem_singleton.1 h]
        simp only [size, Stmt.var.sizeOf_spec, Stmt.ret.sizeOf_spec, Option.some.sizeOf_spec]
        omega
    | block body =>
      have hss := hbody h
      simp only [size, Stmt.block.sizeOf_spec] at hss ⊢
      omega
    | ifThen c s | loop c s =>
      simp only [children, List.mem_cons, List.not_mem_nil, or_false] at h
      simp only [size, Stmt.ifThen.sizeOf_spec, Stmt.loop.sizeOf_spec]
      rcases h with rfl | rfl <;> simp only <;> omega
    | ifElse c yes no =>
      simp only [children, List.mem_cons, List.not_mem_nil, or_false] at h
      simp only [size, Stmt.ifElse.sizeOf_spec]
      rcases h with rfl | rfl | rfl <;> simp only <;> omega
    | function name params body =>
      rw [List.mem_singleton.1 h]
      simp only [size, Stmt.function.sizeOf_spec]
      omega

/-- The nodes right below a node, or none where the traversal stops. -/
def below (stop : Node → Bool) (v : Vertex) : List Vertex := if stop v.node then [] else v.children

/-- The node at a position of a forest from which all is removed that lies below a stop. -/
def at? (stop : Node → Bool) (forest : List Vertex) : List Nat → Option Vertex
  | [] => none
  | [i] => forest[i]?
  | i :: j :: p => forest[i]?.bind fun v => at? stop (v.below stop) (j :: p)

end Vertex

namespace Visitor

variable {σ : Type} (v : Visitor σ)

/-- Passes a node to the visitor. -/
def visit : Vertex → σ → σ
  | .expr e, x => v.visitExpr e x
  | .stmt s, x => v.visitStmt s x
  | .declaration name params body, x => v.declaration name params body (v.visitStmts body) x

def walk : Vertex → σ → σ
  | .expr e, x => v.walkExpr e x
  | .stmt s, x => v.walkStmt s x
  | .declaration _ _ body, x => v.visitStmts body x

def visitForest (forest : List Vertex) (x : σ) : σ := forest.foldl (fun x u => v.visit u x) x

private theorem visitExprs_eq (es : List Expr) (x : σ) :
    v.visitExprs es x = v.visitForest (es.map .expr) x := by
  induction es generalizing x with
  | nil => rfl
  | cons e es ih => exact ih _

private theorem visitStmts_eq (ss : List Stmt) (x : σ) :
    v.visitStmts ss x = v.visitForest (ss.map .stmt) x := by
  induction ss generalizing x with
  | nil => rfl
  | cons s ss ih => exact ih _

/-- Walking passes the nodes right below to the visitor, each once and in their order. -/
theorem walk_eq (u : Vertex) (x : σ) : v.walk u x = v.visitForest u.children x := by
  cases u with
  | expr e =>
    cases e with
    | call callee paren args => exact v.visitExprs_eq args _
    | _ => rfl
  | stmt s =>
    cases s with
    | block body => exact v.visitStmts_eq body x
    | var name value | ret keyword value => cases value <;> rfl
    | _ => rfl
  | declaration name params body => exact v.visitStmts_eq body x

end Visitor

namespace Vertex

variable {stop : Node → Bool}

private theorem at?_cons_cons (stop : Node → Bool) (forest : List Vertex) (i j : Nat)
    (p : List Nat) :
    at? stop forest (i :: j :: p) = forest[i]?.bind fun u => at? stop (u.below stop) (j :: p) := rfl

private theorem ne_nil_of_isSome_at? {forest : List Vertex} {p : List Nat}
    (h : (at? stop forest p).isSome) : p ≠ [] := by
  rintro rfl
  cases h

private theorem at?_nil (stop : Node → Bool) (p : List Nat) : at? stop [] p = none := by
  match p with
  | [] | [_] | _ :: _ :: _ => rfl

/-- No node above the position is a stop. -/
def Unstopped (stop : Node → Bool) (forest : List Vertex) (p : List Nat) : Prop :=
  ∀ q u, q <+: p → q ≠ p → at? (fun _ => false) forest q = some u → stop u.node = false

private theorem unstopped_singleton (forest : List Vertex) (i : Nat) :
    Unstopped stop forest [i] := by
  intro q u hq hne hu
  rcases List.prefix_cons_iff.1 hq with rfl | ⟨r, rfl, hr⟩
  · cases hu
  · rw [List.prefix_nil.1 hr] at hne
    exact absurd rfl hne

private theorem unstopped_cons_iff {forest : List Vertex} {i j : Nat} {p : List Nat} {u : Vertex}
    (hu : forest[i]? = some u) : Unstopped stop forest (i :: j :: p) ↔
      stop u.node = false ∧ Unstopped stop u.children (j :: p) := by
  have hbelow (k : Nat) (r : List Nat) : at? (fun _ => false) forest (i :: k :: r) =
      at? (fun _ => false) u.children (k :: r) := by
    rw [at?_cons_cons, hu]
    rfl
  constructor
  · intro h
    refine ⟨h [i] u (by simp) (by simp) hu, fun q w hq hne hw => ?_⟩
    have hnil : q ≠ [] := ne_nil_of_isSome_at? (Option.isSome_of_eq_some hw)
    obtain ⟨k, r, rfl⟩ := List.exists_cons_of_ne_nil hnil
    exact h (i :: k :: r) w (List.prefix_cons_inj i |>.2 hq) (by simpa using hne)
      ((hbelow k r).trans hw)
  · rintro ⟨hstop, h⟩ q w hq hne hw
    rcases List.prefix_cons_iff.1 hq with rfl | ⟨r, rfl, hr⟩
    · cases hw
    · cases r with
      | nil =>
        obtain rfl : u = w := Option.some.inj (hu.symm.trans hw)
        exact hstop
      | cons k r => exact h (k :: r) w hr (by simpa using hne) ((hbelow k r).symm.trans hw)

/-- What remains is what no stop is above. -/
theorem at?_eq_some_iff {forest : List Vertex} {p : List Nat} {v : Vertex} :
    at? stop forest p = some v ↔
      at? (fun _ => false) forest p = some v ∧ Unstopped stop forest p := by
  match p with
  | [] => simp [at?]
  | [i] => exact ⟨fun h => ⟨h, unstopped_singleton forest i⟩, fun h => h.1⟩
  | i :: j :: p =>
    rw [at?_cons_cons, at?_cons_cons]
    cases hu : forest[i]? with
    | none => simp
    | some u =>
      rw [unstopped_cons_iff hu, Option.bind_some, Option.bind_some]
      cases hstop : stop u.node with
      | true => simp [below, hstop, at?_nil]
      | false =>
        have hwhole : u.below (fun _ => false) = u.children := rfl
        have hopen : u.below stop = u.children := by simp [below, hstop]
        rw [hopen, hwhole, at?_eq_some_iff]
        simp

/-- The nodes are those of the forest, with all removed that lies below a stop, each once and in the order
of their positions. -/
def Lists (stop : Node → Bool) (forest found : List Vertex) : Prop :=
  ∃ positions : List (List Nat), positions.Pairwise (· < ·) ∧
    (∀ p, p ∈ positions ↔ (at? stop forest p).isSome) ∧
    found.map some = positions.map (at? stop forest)

theorem Lists.nil : Lists stop [] [] := by
  refine ⟨[], .nil, fun p => ?_, rfl⟩
  match p with
  | [] | [_] | _ :: _ :: _ => simp [at?]

/-- The same position where one more tree stands in front. -/
def behind : List Nat → List Nat
  | [] => []
  | i :: p => (i + 1) :: p

private theorem at?_behind (v : Vertex) (vs : List Vertex) (p : List Nat) :
    at? stop (v :: vs) (behind p) = at? stop vs p := by
  match p with
  | [] | [_] | _ :: _ :: _ => rfl

private theorem at?_inside (v : Vertex) (vs : List Vertex) {p : List Nat} (hp : p ≠ []) :
    at? stop (v :: vs) (0 :: p) = at? stop (v.below stop) p := by
  match p with
  | _ :: _ => rfl

private theorem behind_lt_behind {p q : List Nat} (h : p < q) : behind p < behind q := by
  match p, q with
  | [], _ :: _ => exact List.nil_lt_cons _ _
  | i :: p, j :: q =>
    rw [behind, behind, List.cons_lt_cons_iff, Nat.add_lt_add_iff_right, Nat.add_right_cancel_iff]
    exact List.cons_lt_cons_iff.1 h

private theorem behind_eq_cons_succ_iff {i : Nat} {p q : List Nat} :
    behind q = (i + 1) :: p ↔ q = i :: p := by
  cases q with
  | nil => simp [behind]
  | cons j q => simp [behind]

private theorem zero_cons_lt_behind (p : List Nat) {q : List Nat} (hq : q ≠ []) :
    0 :: p < behind q := by
  obtain ⟨j, q, rfl⟩ := List.exists_cons_of_ne_nil hq
  exact List.cons_lt_cons_iff.2 (.inl (Nat.succ_pos j))

/-- The positions in a forest: the root of its first tree, what is below it, and the other trees. -/
def positionsCons (inside others : List (List Nat)) : List (List Nat) :=
  ([0] :: inside.map (0 :: ·)) ++ others.map behind

variable {ps qs : List (List Nat)}

private theorem pairwise_positionsCons (hps : ∀ p ∈ ps, p ≠ []) (hqs : ∀ q ∈ qs, q ≠ [])
    (h : ps.Pairwise (· < ·)) (h' : qs.Pairwise (· < ·)) :
    (positionsCons ps qs).Pairwise (· < ·) := by
  have hbelow : ∀ p ∈ ps.map (0 :: ·), [0] < p := by
    intro p hp
    obtain ⟨r, hr, rfl⟩ := List.mem_map.1 hp
    obtain ⟨i, r, rfl⟩ := List.exists_cons_of_ne_nil (hps _ hr)
    exact List.cons_lt_cons_iff.2 (.inr ⟨rfl, List.nil_lt_cons i r⟩)
  have hinside : (ps.map (0 :: ·)).Pairwise (· < ·) :=
    h.map _ fun p q hpq => List.cons_lt_cons_iff.2 (.inr ⟨rfl, hpq⟩)
  have hothers : (qs.map behind).Pairwise (· < ·) := h'.map _ fun p q => behind_lt_behind
  refine List.pairwise_append.2 ⟨List.pairwise_cons.2 ⟨hbelow, hinside⟩, hothers, ?_⟩
  intro p hp q hq
  obtain ⟨s, hs, rfl⟩ := List.mem_map.1 hq
  rcases List.mem_cons.1 hp with rfl | hp
  · exact zero_cons_lt_behind [] (hqs s hs)
  · obtain ⟨r, -, rfl⟩ := List.mem_map.1 hp
    exact zero_cons_lt_behind r (hqs s hs)

private theorem mem_positionsCons_iff {v : Vertex} {vs : List Vertex} (hqs : ∀ q ∈ qs, q ≠ [])
    (h : ∀ p, p ∈ ps ↔ (at? stop (v.below stop) p).isSome)
    (h' : ∀ q, q ∈ qs ↔ (at? stop vs q).isSome) (p : List Nat) :
    p ∈ positionsCons ps qs ↔ (at? stop (v :: vs) p).isSome := by
  unfold positionsCons
  match p with
  | [] =>
    have hnone : [] ∉ qs.map behind := by
      intro hq
      obtain ⟨q, hq, hnil⟩ := List.mem_map.1 hq
      cases q with
      | nil => exact hqs [] hq rfl
      | cons j q => cases hnil
    simp [hnone, at?]
  | [0] => simp [at?]
  | 0 :: i :: p =>
    have hnone : ∀ q, behind q ≠ 0 :: i :: p := by
      rintro (_ | ⟨j, q⟩) hq <;> cases hq
    simp [hnone, h, at?]
  | (i + 1) :: p =>
    have hsame : at? stop (v :: vs) ((i + 1) :: p) = at? stop vs (i :: p) := at?_behind v vs (i :: p)
    simp [behind_eq_cons_succ_iff, h', hsame]

/-- A node, what is found below it, and what is found in the trees behind it. -/
theorem Lists.cons {v : Vertex} {vs inside found : List Vertex}
    (hv : Lists stop (v.below stop) inside)
    (hvs : Lists stop vs found) : Lists stop (v :: vs) (v :: inside ++ found) := by
  obtain ⟨ps, hps, hmem, hat⟩ := hv
  obtain ⟨qs, hqs, hmem', hat'⟩ := hvs
  have hne : ∀ p ∈ ps, p ≠ [] := fun p hp => ne_nil_of_isSome_at? ((hmem p).1 hp)
  have hne' : ∀ q ∈ qs, q ≠ [] := fun q hq => ne_nil_of_isSome_at? ((hmem' q).1 hq)
  have hbelow : ps.map (fun p => at? stop (v :: vs) (0 :: p)) = ps.map (at? stop (v.below stop)) :=
    List.map_congr_left fun p hp => at?_inside v vs (hne p hp)
  have hothers : qs.map (fun q => at? stop (v :: vs) (behind q)) = qs.map (at? stop vs) :=
    List.map_congr_left fun q _ => at?_behind v vs q
  refine ⟨positionsCons ps qs, pairwise_positionsCons hne hne' hps hqs,
    mem_positionsCons_iff hne' hmem hmem', ?_⟩
  calc (v :: inside ++ found).map some
      = some v :: inside.map some ++ found.map some := by rw [List.map_append, List.map_cons]
    _ = at? stop (v :: vs) [0] :: ps.map (fun p => at? stop (v :: vs) (0 :: p)) ++
        qs.map (fun q => at? stop (v :: vs) (behind q)) := by rw [hat, hat', hbelow, hothers]; rfl
    _ = (positionsCons ps qs).map (at? stop (v :: vs)) := by
      rw [positionsCons, List.map_append, List.map_cons, List.map_map, List.map_map]
      rfl

end Vertex

namespace Vertex

/-- What the traversal sees from the node on. -/
def seen (stop : Node → Bool) : Vertex → List Node
  | .expr e => e.visit stop
  | .stmt s => s.visit stop
  | .declaration name _ body => Node.enter stop (.declaration name.lexeme) (Stmt.visitAll stop body)

private theorem visitAll_exprs (stop : Node → Bool) (es : List Expr) :
    Expr.visitAll stop es = (es.map .expr).flatMap (seen stop) := by
  induction es with
  | nil => rfl
  | cons e es ih => exact congrArg (e.visit stop ++ ·) ih

private theorem visitAll_stmts (stop : Node → Bool) (ss : List Stmt) :
    Stmt.visitAll stop ss = (ss.map .stmt).flatMap (seen stop) := by
  induction ss with
  | nil => rfl
  | cons s ss ih => exact congrArg (s.visit stop ++ ·) ih

private theorem seen_eq (stop : Node → Bool) (u : Vertex) :
    u.seen stop = u.node :: (u.below stop).flatMap (seen stop) := by
  have hseen : u.seen stop = Node.enter stop u.node (u.children.flatMap (seen stop)) := by
    cases u with
    | expr e => cases e <;> simp [seen, node, children, Expr.visit, Node.enter, visitAll_exprs]
    | stmt s =>
      cases s with
      | var name value | ret keyword value =>
        cases value <;> simp [seen, node, children, Stmt.visit, Node.enter]
      | block body =>
        rw [children, ← visitAll_stmts]
        rfl
      | _ => simp [seen, node, children, Stmt.visit, Node.enter, visitAll_stmts]
    | declaration name params body => simp [seen, node, children, visitAll_stmts]
  rw [hseen, Node.enter, below]
  split <;> rfl

end Vertex

/-- Records each node, and goes on below it unless it is a stop. -/
def Visitor.recorder (stop : Node → Bool) : Visitor (List Vertex) where
  expr e below found :=
    if stop (Vertex.expr e).node then found ++ [.expr e] else below (found ++ [.expr e])
  stmt s below found :=
    if stop (Vertex.stmt s).node then found ++ [.stmt s] else below (found ++ [.stmt s])
  declaration name params body below found :=
    let u := Vertex.declaration name params body
    if stop u.node then found ++ [u] else below (found ++ [u])

namespace Visitor

open Vertex

variable {stop : Node → Bool}

private theorem visit_recorder (u : Vertex) (found : List Vertex) :
    (recorder stop).visit u found = (recorder stop).visitForest (u.below stop) (found ++ [u]) := by
  have hvisit : (recorder stop).visit u found =
      if stop u.node then found ++ [u] else (recorder stop).walk u (found ++ [u]) := by
    cases u <;> rfl
  rw [hvisit, walk_eq, below]
  split <;> rfl

/-- The nodes of the forest are recorded behind what has been recorded before, and the traversal sees
what they are. -/
structure Records (stop : Node → Bool) (forest nodes : List Vertex) : Prop where
  lists : Lists stop forest nodes
  recorded : ∀ found, (recorder stop).visitForest forest found = found ++ nodes
  seen : nodes.map node = forest.flatMap (seen stop)

private theorem exists_records_of_below {forest : List Vertex}
    (h : ∀ u ∈ forest, ∃ inside, Records stop (u.below stop) inside) :
    ∃ nodes, Records stop forest nodes := by
  induction forest with
  | nil => exact ⟨[], .nil, fun found => (List.append_nil found).symm, rfl⟩
  | cons v vs ih =>
    obtain ⟨hv, hvs⟩ := List.forall_mem_cons.1 h
    obtain ⟨inside, hinside⟩ := hv
    obtain ⟨nodes, hnodes⟩ := ih hvs
    refine ⟨v :: inside ++ nodes, hinside.lists.cons hnodes.lists, fun found => ?_, ?_⟩
    · calc (recorder stop).visitForest (v :: vs) found
          = (recorder stop).visitForest vs ((recorder stop).visit v found) := rfl
        _ = found ++ [v] ++ inside ++ nodes := by
          rw [visit_recorder, hinside.recorded, hnodes.recorded]
        _ = found ++ (v :: inside ++ nodes) := by simp
    · rw [List.map_append, List.map_cons, hinside.seen, hnodes.seen, List.flatMap_cons, seen_eq]

private theorem exists_records_below (v : Vertex) :
    ∃ inside, Records stop (v.below stop) inside := by
  induction hk : v.size using Nat.strongRecOn generalizing v with
  | ind k ih =>
    subst hk
    apply exists_records_of_below
    intro u hu
    have hchild : u ∈ v.children := by
      rw [below] at hu
      split at hu
      · cases hu
      · exact hu
    exact ih u.size (size_lt_of_mem_children hchild) u rfl

private theorem exists_records (stop : Node → Bool) (forest : List Vertex) :
    ∃ nodes, Records stop forest nodes :=
  exists_records_of_below fun u _ => exists_records_below u

/-- The recorder lists the nodes at all positions but those below a stop, each once and in the
lexicographic order of positions. For a program these are what its traversal gives. -/
theorem recorder_lists_preorder :
    (∀ stop forest, Lists stop forest ((recorder stop).visitForest forest [])) ∧
    (∀ stop program, (recorder stop).visitStmts program [] =
        (recorder stop).visitForest (program.map .stmt) [] ∧
      ((recorder stop).visitStmts program []).map node = Stmt.visitAll stop program) ∧
    (∀ stop forest p v, at? stop forest p = some v ↔
      at? (fun _ => false) forest p = some v ∧ Unstopped stop forest p) ∧
    ∀ forest, ∃ positions : List (List Nat), positions.Nodup ∧
      (∀ p, p ∈ positions ↔ (at? (fun _ => false) forest p).isSome) ∧
      ((recorder fun _ => false).visitForest forest []).map some =
        positions.map (at? (fun _ => false) forest) := by
  have hlists (stop : Node → Bool) (forest : List Vertex) :
      Lists stop forest ((recorder stop).visitForest forest []) := by
    obtain ⟨nodes, h⟩ := exists_records stop forest
    rw [h.recorded, List.nil_append]
    exact h.lists
  refine ⟨hlists, fun stop program => ⟨visitStmts_eq _ program [], ?_⟩,
    fun stop forest p v => at?_eq_some_iff, fun forest => ?_⟩
  · obtain ⟨nodes, h⟩ := exists_records stop (program.map .stmt)
    rw [visitStmts_eq, h.recorded, List.nil_append, h.seen, visitAll_stmts]
  · obtain ⟨positions, hsorted, hmem, hat⟩ := hlists (fun _ => false) forest
    refine ⟨positions, hsorted.imp ?_, hmem, hat⟩
    rintro p q hlt rfl
    exact List.lt_irrefl p hlt

end Visitor

end Scriptlet
