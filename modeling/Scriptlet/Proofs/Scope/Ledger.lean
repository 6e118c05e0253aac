import Mathlib.Order.Defs.PartialOrder
import Scriptlet.Proofs.Scope.Reachability

namespace Scriptlet

structure Ledger where
  /-- For each scope the chain of scopes around it. -/
  links : List (List Nat)
  /-- The functions, each in the place of its identity. -/
  functions : List Function

namespace Ledger

/-- What stands in the first ledger stands in the second one. -/
structure Continues (L K : Ledger) : Prop where
  links {scope : Nat} {outer : List Nat} : L.links[scope]? = some outer →
    K.links[scope]? = some outer
  functions {identity : Nat} {f : Function} : L.functions[identity]? = some f →
    K.functions[identity]? = some f

instance : Preorder Ledger where
  le := Continues
  le_refl _ := ⟨id, id⟩
  le_trans _ _ _ h h' := ⟨h'.links ∘ h.links, h'.functions ∘ h.functions⟩

/-- Around each scope of the chain is the rest of the chain. -/
def KnowsChain (L : Ledger) : List Nat → Prop
  | [] => True
  | scope :: outer => L.links[scope]? = some outer ∧ L.KnowsChain outer

def KnowsEnv (L : Ledger) (e : Env) : Prop := L.KnowsChain e.chain

def Knows (L : Ledger) (f : Function) : Prop :=
  L.functions[f.identity]? = some f ∧ L.KnowsEnv f.closure

/-- The ledger lists just the scopes and functions of the store, and knows all functions in it. -/
structure Describes (L : Ledger) (s : Store) : Prop where
  scopes : L.links.length = s.scopes.size
  made : L.functions.length = s.functions
  bound : s.EachFunction L.Knows

def addScope (L : Ledger) (outer : List Nat) : Ledger := { L with links := L.links ++ [outer] }

def addFunction (L : Ledger) (f : Function) : Ledger := { L with functions := L.functions ++ [f] }

variable {L K : Ledger} {s : Store}

theorem le_addScope (L : Ledger) (outer : List Nat) : L ≤ L.addScope outer where
  links h := by
    have hlt := (List.getElem?_eq_some_iff.1 h).1
    rw [← h]
    exact List.getElem?_append_left hlt
  functions := id

theorem le_addFunction (L : Ledger) (f : Function) : L ≤ L.addFunction f where
  links := id
  functions h := by
    have hlt := (List.getElem?_eq_some_iff.1 h).1
    rw [← h]
    exact List.getElem?_append_left hlt

theorem describes_empty : Describes ⟨[], []⟩ Store.empty := ⟨rfl, rfl, Store.eachFunction_empty⟩

theorem KnowsChain.mono (hLK : L ≤ K) {chain : List Nat} (h : L.KnowsChain chain) :
    K.KnowsChain chain := by
  induction chain with
  | nil => trivial
  | cons scope outer ih => exact ⟨hLK.links h.1, ih h.2⟩

theorem KnowsEnv.mono (hLK : L ≤ K) {e : Env} (h : L.KnowsEnv e) : K.KnowsEnv e :=
  KnowsChain.mono hLK h

theorem Knows.mono (hLK : L ≤ K) {f : Function} (h : L.Knows f) : K.Knows f :=
  ⟨hLK.functions h.1, KnowsEnv.mono hLK h.2⟩

/-- The ledger lists the scopes that it knows. -/
theorem KnowsEnv.own_lt {e : Env} (h : L.KnowsEnv e) : e.own < L.links.length :=
  (List.getElem?_eq_some_iff.1 h.1).1

theorem KnowsEnv.enclosing {e outer : Env} (h : L.KnowsEnv e) (houter : e.enclosing? = some outer) :
    L.KnowsEnv outer := by
  obtain ⟨own, around⟩ := e
  cases around with
  | nil => cases houter
  | cons next around =>
    cases houter
    exact h.2

/-- What is reached from known environments is known. -/
theorem Describes.knowsEnv (hs : L.Describes s) {roots : List Env}
    (hroots : ∀ e ∈ roots, L.KnowsEnv e) {e : Env} (h : s.Reaches roots e) : L.KnowsEnv e := by
  induction h with
  | root he => exact hroots _ he
  | enclosing _ houter ih => exact ih.enclosing houter
  | @closure e name f _ hf _ => exact (hs.bound e.own name _ hf f rfl).2

theorem Describes.lt_size (hs : L.Describes s) {roots : List Env}
    (hroots : ∀ e ∈ roots, L.KnowsEnv e)
    {scope : Nat} (h : s.ReachesScope roots scope) : scope < s.scopes.size := by
  obtain ⟨e, he, rfl⟩ := h
  rw [← hs.scopes]
  exact (hs.knowsEnv hroots he).own_lt

private theorem Describes.mono_bound (hs : L.Describes s) (hLK : L ≤ K) :
    s.EachFunction K.Knows := by
  intro scope name v hv f hf
  exact (hs.bound scope name v hv f hf).mono hLK

theorem Describes.bindIn (hs : L.Describes s) (scope : Nat) (name : String) {v : Value}
    (hv : v.FunctionHas L.Knows) : L.Describes (s.bindIn scope name v) where
  scopes := by rw [Store.size_bindIn, hs.scopes]
  made := hs.made
  bound := hs.bound.bindIn scope name hv

theorem Describes.defineAll (hs : L.Describes s) (env : Env) (names : List Token) {vs : List Value}
    (hvs : ∀ v ∈ vs, v.FunctionHas L.Knows) : L.Describes (s.defineAll env names vs) := by
  induction names generalizing s vs with
  | nil => exact hs
  | cons t names ih =>
    cases vs with
    | nil => exact hs
    | cons v vs =>
      obtain ⟨hv, hmore⟩ := List.forall_mem_cons.1 hvs
      exact ih (hs.bindIn env.own t.lexeme hv) hmore

theorem Describes.openScope (hs : L.Describes s) (outer : List Nat) :
    (L.addScope outer).Describes (s.openScope outer).2 where
  scopes := by
    rw [Store.size_openScope, ← hs.scopes]
    exact List.length_append
  made := hs.made
  bound := Store.EachFunction.openScope (hs.mono_bound (L.le_addScope outer)) outer

/-- The new scope is listed where the store has opened it. -/
theorem Describes.knowsEnv_openScope (hs : L.Describes s) {e : Env} (he : L.KnowsEnv e) :
    (L.addScope e.chain).KnowsEnv (s.openScope e.chain).1 := by
  refine ⟨?_, KnowsEnv.mono (L.le_addScope e.chain) he⟩
  show (L.links ++ [e.chain])[s.scopes.size]? = some e.chain
  rw [← hs.scopes, List.getElem?_concat_length]

theorem Describes.newFunction (hs : L.Describes s) (name : Token) (params : List Token)
    (body : List Stmt) (e : Env) :
    (L.addFunction (s.newFunction name params body e).1).Describes
      (s.newFunction name params body e).2 where
  scopes := hs.scopes
  made := by
    show (L.functions ++ [(s.newFunction name params body e).1]).length = s.functions + 1
    rw [List.length_append, hs.made, List.length_singleton]
  bound := hs.mono_bound (L.le_addFunction _)

theorem Describes.knows_newFunction (hs : L.Describes s) (name : Token) (params : List Token)
    (body : List Stmt) {e : Env} (he : L.KnowsEnv e) :
    (L.addFunction (s.newFunction name params body e).1).Knows
      (s.newFunction name params body e).1 := by
  refine ⟨?_, KnowsEnv.mono (L.le_addFunction _) he⟩
  show (L.functions ++ [(s.newFunction name params body e).1])[s.functions]? = some _
  rw [← hs.made, List.getElem?_concat_length]

end Ledger

end Scriptlet
