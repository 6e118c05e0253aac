import Scriptlet.Proofs.Evaluation.Invariant
import Scriptlet.Proofs.Scope.Ledger

namespace Scriptlet

open Scriptlet.Action Evaluation

namespace Store

variable {before s : Store} {roots : List Env} {p : Nat → Prop}

/-- Nothing has changed outside the scopes of the given kind, and no function inside leads outside. -/
structure KeptOutside (p : Nat → Prop) (before s : Store) : Prop where
  grown : before.scopes.size ≤ s.scopes.size
  closed : s.Closed p
  same : ∀ scope, ¬p scope → s.scopes[scope]? = before.scopes[scope]?

theorem KeptOutside.bindIn (h : KeptOutside p before s) {scope : Nat} (hscope : p scope)
    (name : String) {v : Value} (hv : v.FunctionHas fun f => f.closure.Within p) :
    KeptOutside p before (s.bindIn scope name v) where
  grown := by
    rw [size_bindIn]
    exact h.grown
  closed := h.closed.bindIn scope name hv
  same other hother := by
    have hne : scope ≠ other := fun heq => hother (heq ▸ hscope)
    rw [getElem?_bindIn_of_ne s hne]
    exact h.same other hother

/-- All scopes that are opened from now on are of the given kind. -/
theorem KeptOutside.openScope (h : KeptOutside p before s)
    (hnew : ∀ n, before.scopes.size ≤ n → p n)
    (outer : List Nat) : KeptOutside p before (s.openScope outer).2 where
  grown := by
    rw [size_openScope]
    exact Nat.le_succ_of_le h.grown
  closed := h.closed.openScope outer
  same scope hscope := by
    have hlt : scope < s.scopes.size :=
      Nat.lt_of_not_le fun hle => hscope (hnew scope (Nat.le_trans h.grown hle))
    rw [getElem?_openScope s outer hlt]
    exact h.same scope hscope

theorem KeptOutside.newFunction (h : KeptOutside p before s) (name : Token) (params : List Token)
    (body : List Stmt) (closure : Env) :
    KeptOutside p before (s.newFunction name params body closure).2 :=
  ⟨h.grown, h.closed, h.same⟩

private theorem keptOutside_territory (s : Store) (roots : List Env) :
    KeptOutside (s.Territory roots) s s :=
  ⟨Nat.le_refl _, closed_territory s roots, fun _ _ => rfl⟩

end Store

/-- A piece of program that starts with the environments `roots` and ends with `given` leaves the
scopes alone that could not be reached, and reaches no others but new ones. -/
structure Ledger.Framed (L : Ledger) (s : Store) (roots : List Env) (s' : Store) (given : List Value) :
    Prop where
  untouched : ∀ scope < s.scopes.size, ¬s.ReachesScope roots scope →
    s'.scopes[scope]? = s.scopes[scope]?
  reached : ∀ scope, s'.ReachesScope (roots ++ Value.closuresOf given) scope →
    s.ReachesScope roots scope ∨ s.scopes.size ≤ scope ∧ scope < s'.scopes.size
  continued : ∃ K, L ≤ K ∧ K.Describes s' ∧ ∀ v ∈ given, v.FunctionHas K.Knows

/-- The outcome is framed, if there is one. After an error there is nothing given. -/
def Outcome.Framed {α : Type} (L : Ledger) (s : Store) (roots : List Env) (given : α → List Value) :
    Outcome α → Prop
  | .done a m => L.Framed s roots m.store (given a)
  | .error _ m => L.Framed s roots m.store []
  | .unfinished => True

theorem Outcome.Framed.exists_framed {α : Type} {L : Ledger} {s : Store} {roots : List Env}
    {given : α → List Value} {r : Outcome α} {m : Machine} (h : r.Framed L s roots given)
    (hm : r.machine? = some m) : ∃ vs, L.Framed s roots m.store vs := by
  cases r with
  | unfinished => cases hm
  | done a m =>
    cases hm
    exact ⟨given a, h⟩
  | error e m =>
    cases hm
    exact ⟨[], h⟩

namespace Invariant

/-- A program keeps to the territory of the environments it starts with and continues the ledger. -/
def frame (before : Store) (roots : List Env) : Invariant Ledger where
  env L e := L.KnowsEnv e ∧ e.Within (before.Territory roots)
  binds L e := L.KnowsEnv e ∧ e.Within (before.Territory roots)
  function L f := L.Knows f ∧ f.closure.Within (before.Territory roots)
  store L s := L.Describes s ∧ Store.KeptOutside (before.Territory roots) before s
  env_mono hu := And.imp_left (·.mono hu)
  binds_mono hu := And.imp_left (·.mono hu)
  function_mono hu := And.imp_left (·.mono hu)
  env_of_binds := id
  env_closure := And.imp_left And.right
  store_get? hs he hv f hf := ⟨hs.1.bound.get? hv f hf, hs.2.closed.get? he.2 hv f hf⟩
  store_assign? hs he hv h := by
    obtain ⟨scope, hscope, -, rfl⟩ := Store.exists_of_assign? h
    exact ⟨hs.1.bindIn scope _ fun f hf => (hv f hf).1,
      hs.2.bindIn (he.2 scope hscope) _ fun f hf => (hv f hf).2⟩
  store_define {L s e v} name hs he hv := by
    have hown : before.Territory roots e.own := he.2 _ List.mem_cons_self
    exact ⟨hs.1.bindIn e.own name fun f hf => (hv f hf).1,
      hs.2.bindIn hown name fun f hf => (hv f hf).2⟩
  store_openScope {L s e} hs he := by
    have hwithin : (s.openScope e.chain).1.Within (before.Territory roots) := by
      intro n hn
      rcases List.mem_cons.1 hn with rfl | hn
      · exact .inr hs.2.grown
      · exact he.2 n hn
    exact ⟨L.addScope e.chain, L.le_addScope _, ⟨hs.1.knowsEnv_openScope he.1, hwithin⟩,
      hs.1.openScope _, hs.2.openScope (fun _ => .inr) _⟩
  store_newFunction {L s e} name params body hs he :=
    ⟨_, L.le_addFunction _, ⟨hs.1.knows_newFunction name params body he.1, he.2⟩,
      hs.1.newFunction name params body e, hs.2.newFunction name params body e⟩

variable {L : Ledger} {s : Store} {roots : List Env}

/-- At the start all that is reached is known, and the territory is what is reached. -/
theorem frame_store (hL : L.Describes s) (roots : List Env) : (frame s roots).store L s :=
  ⟨hL, s.keptOutside_territory roots⟩

private theorem frame_env (hroots : ∀ e ∈ roots, L.KnowsEnv e) {e : Env} (he : e ∈ roots) :
    (frame s roots).env L e :=
  ⟨hroots e he, (Store.Reaches.root he).within_territory⟩

private theorem framed {K : Ledger} {s' : Store} {given : List Value}
    (hroots : ∀ e ∈ roots, L.KnowsEnv e)
    (hLK : L ≤ K) (hstore : (frame s roots).store K s')
    (hgiven : ∀ v ∈ given, v.FunctionHas ((frame s roots).function K)) :
    L.Framed s roots s' given where
  untouched scope hlt hscope := by
    apply hstore.2.same
    rintro (hreached | hle)
    · exact hscope hreached
    · exact Nat.not_le_of_lt hlt hle
  reached scope hscope := by
    have henv : ∀ e ∈ roots ++ Value.closuresOf given, (frame s roots).env K e := by
      intro e he
      rcases List.mem_append.1 he with he | he
      · exact (frame s roots).env_mono hLK (frame_env hroots he)
      · exact Value.forall_mem_closuresOf.2 (fun v hv f hf => (hgiven v hv f hf).imp_left And.right) e he
    have hlt : scope < s'.scopes.size := hstore.1.lt_size (fun e he => (henv e he).1) hscope
    have hterritory : s.Territory roots scope :=
      hstore.2.closed.reachesScope (fun e he => (henv e he).2) hscope
    exact hterritory.imp_right fun hle => ⟨hle, hlt⟩
  continued := ⟨K, hLK, hstore.1, fun v hv f hf => (hgiven v hv f hf).1⟩

private theorem framed_of_keeps {α : Type} {r : Outcome α} {given : α → List Value}
    (hroots : ∀ e ∈ roots, L.KnowsEnv e)
    (hkeeps : (frame s roots).Keeps
      (fun K a => ∀ v ∈ given a, v.FunctionHas ((frame s roots).function K)) L r) :
    r.Framed L s roots given := by
  cases hkeeps with
  | done hLK hgiven hstore => exact framed hroots hLK hstore hgiven
  | error e hLK hstore => exact framed hroots hLK hstore (List.forall_mem_nil _)
  | unfinished => trivial

end Invariant

namespace Evaluation

open Invariant

variable {L : Ledger} {m : Machine}

theorem framed_evaluateWith (hL : L.Describes m.store) (hscope : L.KnowsEnv m.scope) (bound : Nat)
    (x : Expr) : (evaluateWith (call bound) x m).Framed L m.store [m.scope] fun v => [v] := by
  have hroots : ∀ e ∈ [m.scope], L.KnowsEnv e := List.forall_mem_singleton.2 hscope
  have hkeeps := keeps_evaluateWith bound x (frame_store hL _) (frame_env hroots List.mem_cons_self)
  apply framed_of_keeps hroots
  exact hkeeps.imp fun K v hv => List.forall_mem_singleton.2 hv

theorem framed_evaluateAllWith (hL : L.Describes m.store) (hscope : L.KnowsEnv m.scope)
    (bound : Nat)
    (xs : List Expr) : (evaluateAllWith (call bound) xs m).Framed L m.store [m.scope] id := by
  have hroots : ∀ e ∈ [m.scope], L.KnowsEnv e := List.forall_mem_singleton.2 hscope
  exact framed_of_keeps hroots
    (keeps_evaluateAllWith bound xs (frame_store hL _) (frame_env hroots List.mem_cons_self))

theorem framed_executeWith (hL : L.Describes m.store) (hscope : L.KnowsEnv m.scope) (bound : Nat)
    (st : Stmt) :
    (executeWith (call bound) bound st m).Framed L m.store [m.scope] fun flow =>
      flow.value?.toList := by
  have hroots : ∀ e ∈ [m.scope], L.KnowsEnv e := List.forall_mem_singleton.2 hscope
  have henv := frame_env (s := m.store) hroots List.mem_cons_self
  have hkeeps := keeps_executeWith bound st (frame_store hL _) henv fun _ => henv
  apply framed_of_keeps hroots
  exact hkeeps.imp fun K flow hflow v hv => hflow v (Option.mem_toList.1 hv)

theorem framed_executeAll (hL : L.Describes m.store) {env : Env} (henv : L.KnowsEnv env)
    (bound : Nat) (ss : List Stmt) :
    (executeAll bound env ss m).Framed L m.store [env] fun flow => flow.value?.toList := by
  have hroots : ∀ e ∈ [env], L.KnowsEnv e := List.forall_mem_singleton.2 henv
  have hkeeps := keeps_executeAll bound ss (frame_store hL _) (frame_env hroots List.mem_cons_self)
  apply framed_of_keeps hroots
  exact hkeeps.imp fun K flow hflow v hv => hflow v (Option.mem_toList.1 hv)

/-- A call only has what its function and its arguments lead to. -/
theorem framed_call (hL : L.Describes m.store) {f : Function} (hf : L.Knows f) {args : List Value}
    (hargs : ∀ v ∈ args, v.FunctionHas L.Knows) (bound : Nat) :
    (call bound f args m).Framed L m.store (f.closure :: Value.closuresOf args) fun v => [v] := by
  have hclosures : ∀ e ∈ Value.closuresOf args, L.KnowsEnv e :=
    Value.forall_mem_closuresOf.2 fun v hv g hg => (hargs v hv g hg).2
  have hroots : ∀ e ∈ f.closure :: Value.closuresOf args, L.KnowsEnv e :=
    List.forall_mem_cons.2 ⟨hf.2, hclosures⟩
  have henv {e : Env} (he : e ∈ f.closure :: Value.closuresOf args) :=
    (frame_env (s := m.store) hroots he).2
  have hargs' : ∀ v ∈ args, v.FunctionHas ((frame m.store _).function L) := fun v hv g hg =>
    ⟨hargs v hv g hg, Value.forall_mem_closuresOf.1 (fun e he => henv (.tail _ he)) v hv g hg⟩
  have hkeeps := keeps_call bound (frame_store hL _) ⟨hf, henv List.mem_cons_self⟩ hargs'
  apply framed_of_keeps hroots
  exact hkeeps.imp fun K v hv => List.forall_mem_singleton.2 hv

end Evaluation

end Scriptlet
