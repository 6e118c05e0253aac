import Mathlib.Order.Defs.PartialOrder
import Scriptlet.Proofs.Scope.Matching

namespace Scriptlet

/-- Which scopes of two stores correspond, by their numbers, and which scopes of the first one are
hollow. A hollow scope corresponds to none. -/
structure Padding where
  scopes : Nat → Nat → Prop
  hollow : Nat → Prop
  unique : Relator.BiUnique scopes
  apart : ∀ n n', scopes n n' → ¬hollow n

namespace Padding

structure Extends (w u : Padding) : Prop where
  scopes {n n' : Nat} : w.scopes n n' → u.scopes n n'
  hollow {n : Nat} : w.hollow n → u.hollow n

instance : Preorder Padding where
  le := Extends
  le_refl _ := ⟨id, id⟩
  le_trans _ _ _ h h' := ⟨h'.scopes ∘ h.scopes, h'.hollow ∘ h.hollow⟩

/-- The first so many scopes of two stores correspond to each other, and no scope is hollow. -/
def same (size : Nat) : Padding where
  scopes n n' := n = n' ∧ n < size
  hollow _ := False
  unique := ⟨fun _ _ _ h h' => h.1.trans h'.1.symm, fun _ _ _ h h' => h.1.symm.trans h'.1⟩
  apart _ _ _ := id

/-- The chains correspond scope by scope, once hollow scopes are left out of the first one. -/
inductive Chains (w : Padding) : List Nat → List Nat → Prop where
  | nil : Chains w [] []
  | scope {n n' : Nat} {ns ns' : List Nat} : w.scopes n n' → Chains w ns ns' →
    Chains w (n :: ns) (n' :: ns')
  | hollow {n : Nat} {ns ns' : List Nat} : w.hollow n → Chains w ns ns' → Chains w (n :: ns) ns'

def Envs (w : Padding) (e e' : Env) : Prop := w.Chains e.chain e'.chain

/-- Environments in which names can be declared alike: the scopes of their own correspond. -/
structure Binds (w : Padding) (e e' : Env) : Prop where
  own : w.scopes e.own e'.own
  outer : w.Chains e.outer e'.outer

/-- The same function, but for hollow scopes of its closure. -/
structure Functions (w : Padding) (f f' : Function) : Prop where
  identity : f.identity = f'.identity
  name : f.name = f'.name
  params : f.params = f'.params
  body : f.body = f'.body
  closure : w.Envs f.closure f'.closure

abbrev Values (w : Padding) : Value → Value → Prop := Value.Related w.Functions

/-- Corresponding scopes bind the same names to corresponding values, and hollow scopes bind none. -/
structure Agree (w : Padding) (s s' : Store) : Prop where
  functions : s.functions = s'.functions
  between : ∀ n n', w.scopes n n' → n < s.scopes.size ∧ n' < s'.scopes.size
  hollow : ∀ n, w.hollow n → n < s.scopes.size ∧ ∀ name, s.valueIn? n name = none
  bindings : ∀ n n', w.scopes n n' → ∀ name,
    Option.Rel w.Values (s.valueIn? n name) (s'.valueIn? n' name)

variable {w u : Padding}

theorem Chains.mono (hwu : w ≤ u) {ns ns' : List Nat} (h : w.Chains ns ns') : u.Chains ns ns' := by
  induction h with
  | nil => exact .nil
  | scope hn _ ih => exact .scope (hwu.scopes hn) ih
  | hollow hn _ ih => exact .hollow (hwu.hollow hn) ih

theorem Binds.mono (hwu : w ≤ u) {e e' : Env} (h : w.Binds e e') : u.Binds e e' :=
  ⟨hwu.scopes h.own, h.outer.mono hwu⟩

theorem Binds.envs {e e' : Env} (h : w.Binds e e') : w.Envs e e' := .scope h.own h.outer

theorem Functions.mono (hwu : w ≤ u) {f f' : Function} (h : w.Functions f f') : u.Functions f f' :=
  ⟨h.identity, h.name, h.params, h.body, Chains.mono hwu h.closure⟩

theorem values_mono (hwu : w ≤ u) {v v' : Value} (h : w.Values v v') : u.Values v v' :=
  h.mono fun _ _ => Functions.mono hwu

/-- Each scope of the chain corresponds to itself. -/
theorem chains_same {size : Nat} {ns : List Nat} (h : ∀ n ∈ ns, n < size) :
    (same size).Chains ns ns := by
  induction ns with
  | nil => exact .nil
  | cons n ns ih =>
    obtain ⟨hn, hns⟩ := List.forall_mem_cons.1 h
    exact .scope ⟨rfl, hn⟩ (ih hns)

section Stores

variable {s s' : Store}

/-- Functions in the store close over scopes that are there. -/
abbrev Closes (s : Store) : Prop := s.EachFunction fun f => f.closure.Within (· < s.scopes.size)

private theorem values_same {size : Nat} {v : Value}
    (h : v.FunctionHas fun f => f.closure.Within (· < size)) : (same size).Values v v := by
  cases v with
  | function f => exact .function ⟨rfl, rfl, rfl, rfl, chains_same (h f rfl)⟩
  | _ => exact .of_ne fun f hf => by cases hf

theorem agree_same (h : Closes s) : (same s.scopes.size).Agree s s where
  functions := rfl
  between := by
    rintro n _ ⟨rfl, hn⟩
    exact ⟨hn, hn⟩
  hollow _ hn := hn.elim
  bindings := by
    rintro n _ ⟨rfl, -⟩ name
    cases hv : s.valueIn? n name with
    | none => exact .none
    | some v => exact .some (values_same (h n name v hv))

theorem Agree.holder? (h : w.Agree s s') {ns ns' : List Nat} (hns : w.Chains ns ns')
    (name : String) : Option.Rel w.scopes (s.holder? ns name) (s'.holder? ns' name) := by
  unfold Store.holder?
  induction hns with
  | nil => exact .none
  | scope hn _ ih =>
    have hbound := isSome_eq_of_rel (h.bindings _ _ hn name)
    rw [List.find?_cons, List.find?_cons, hbound]
    split
    · exact .some hn
    · exact ih
  | hollow hn _ ih =>
    rw [List.find?_cons, (h.hollow _ hn).2 name]
    exact ih

theorem Agree.get? (h : w.Agree s s') {e e' : Env} (he : w.Envs e e') (name : String) :
    Option.Rel w.Values (s.get? e name) (s'.get? e' name) := by
  have hholder := h.holder? he name
  rw [Store.get?_eq, Store.get?_eq]
  generalize s.holder? e.chain name = o at hholder
  generalize s'.holder? e'.chain name = o' at hholder
  cases hholder with
  | some hn => exact h.bindings _ _ hn name
  | none => exact .none

theorem Agree.bindIn (h : w.Agree s s') {n n' : Nat} (hn : w.scopes n n') (name : String)
    {v v' : Value} (hv : w.Values v v') : w.Agree (s.bindIn n name v) (s'.bindIn n' name v') where
  functions := h.functions
  between k k' hk := by
    rw [Store.size_bindIn, Store.size_bindIn]
    exact h.between k k' hk
  hollow k hk := by
    obtain ⟨hlt, hnone⟩ := h.hollow k hk
    have hne : n ≠ k := fun heq => w.apart n n' hn (heq ▸ hk)
    rw [Store.size_bindIn]
    refine ⟨hlt, fun x => ?_⟩
    rw [Store.valueIn?_bindIn, if_neg fun heq => hne heq.1]
    exact hnone x
  bindings k k' hk x := by
    have hiff : n = k ↔ n' = k' := Relator.rel_eq w.unique hn hk
    obtain ⟨hlt, hlt'⟩ := h.between n n' hn
    rw [Store.valueIn?_bindIn, Store.valueIn?_bindIn]
    by_cases hsame : n = k ∧ name = x
    · rw [if_pos ⟨hsame.1, hsame.2, hlt⟩, if_pos ⟨hiff.1 hsame.1, hsame.2, hlt'⟩]
      exact .some hv
    · rw [if_neg fun heq => hsame ⟨heq.1, heq.2.1⟩,
        if_neg fun heq => hsame ⟨hiff.2 heq.1, heq.2.1⟩]
      exact h.bindings k k' hk x

theorem Agree.assign? (h : w.Agree s s') {e e' : Env} (he : w.Envs e e') (name : String)
    {v v' : Value} (hv : w.Values v v') :
    Option.Rel w.Agree (s.assign? e name v) (s'.assign? e' name v') := by
  have hholder := h.holder? he name
  unfold Store.assign?
  generalize s.holder? e.chain name = o at hholder
  generalize s'.holder? e'.chain name = o' at hholder
  cases hholder with
  | some hn => exact .some (h.bindIn hn name hv)
  | none => exact .none

/-- The scopes that are opened next may correspond. -/
def addScope (w : Padding) {s s' : Store} (h : w.Agree s s') : Padding where
  scopes n n' := w.scopes n n' ∨ n = s.scopes.size ∧ n' = s'.scopes.size
  hollow := w.hollow
  unique := biUnique_insert w.unique h.between
  apart := by
    rintro n n' (hn | ⟨rfl, -⟩)
    · exact w.apart n n' hn
    · exact fun hhollow => Nat.lt_irrefl _ (h.hollow _ hhollow).1

/-- The scope that the first store opens next may be hollow. -/
def addHollow (w : Padding) {s s' : Store} (h : w.Agree s s') : Padding where
  scopes := w.scopes
  hollow n := w.hollow n ∨ n = s.scopes.size
  unique := w.unique
  apart := by
    rintro n n' hn (hhollow | rfl)
    · exact w.apart n n' hn hhollow
    · exact Nat.lt_irrefl _ (h.between _ _ hn).1

theorem le_addScope (h : w.Agree s s') : w ≤ w.addScope h := ⟨.inl, id⟩

private theorem le_addHollow (h : w.Agree s s') : w ≤ w.addHollow h := ⟨id, .inl⟩

theorem Agree.openScope (h : w.Agree s s') {e e' : Env} (he : w.Envs e e') :
    ∃ u, w ≤ u ∧ u.Binds (s.openScope e.chain).1 (s'.openScope e'.chain).1 ∧
      u.Agree (s.openScope e.chain).2 (s'.openScope e'.chain).2 := by
  have hwu := le_addScope h
  refine ⟨w.addScope h, hwu, ⟨.inr ⟨rfl, rfl⟩, he.mono hwu⟩, h.functions, ?_, ?_, ?_⟩
  · intro n n' hn
    rw [Store.size_openScope, Store.size_openScope]
    rcases hn with hn | ⟨rfl, rfl⟩
    · exact (h.between n n' hn).imp Nat.lt_succ_of_lt Nat.lt_succ_of_lt
    · exact ⟨Nat.lt_succ_self _, Nat.lt_succ_self _⟩
  · intro n hn
    obtain ⟨hlt, hnone⟩ := h.hollow n hn
    rw [Store.size_openScope]
    refine ⟨Nat.lt_succ_of_lt hlt, fun name => ?_⟩
    rw [Store.valueIn?_openScope]
    exact hnone name
  · intro n n' hn name
    rw [Store.valueIn?_openScope, Store.valueIn?_openScope]
    rcases hn with hn | ⟨rfl, rfl⟩
    · exact rel_mono (fun _ _ => values_mono hwu) (h.bindings n n' hn name)
    · rw [Store.valueIn?_of_size_le (Nat.le_refl _), Store.valueIn?_of_size_le (Nat.le_refl _)]
      exact .none

/-- Only the first store opens a scope. -/
theorem Agree.openHollow (h : w.Agree s s') {e e' : Env} (he : w.Envs e e') :
    ∃ u, w ≤ u ∧ u.Envs (s.openScope e.chain).1 e' ∧ u.Agree (s.openScope e.chain).2 s' := by
  have hwu := le_addHollow h
  refine ⟨w.addHollow h, hwu, .hollow (.inr rfl) (he.mono hwu), h.functions, ?_, ?_, ?_⟩
  · intro n n' hn
    rw [Store.size_openScope]
    exact (h.between n n' hn).imp_left Nat.lt_succ_of_lt
  · intro n hn
    rw [Store.size_openScope]
    simp only [Store.valueIn?_openScope]
    rcases hn with hn | rfl
    · exact (h.hollow n hn).imp_left Nat.lt_succ_of_lt
    · exact ⟨Nat.lt_succ_self _, Store.valueIn?_of_size_le (Nat.le_refl _)⟩
  · intro n n' hn name
    rw [Store.valueIn?_openScope]
    exact rel_mono (fun _ _ => values_mono hwu) (h.bindings n n' hn name)

/-- Both stores give the same identity. -/
theorem Agree.newFunction (h : w.Agree s s') (name : Token) (params : List Token) (body : List Stmt)
    {e e' : Env} (he : w.Envs e e') :
    w.Functions (s.newFunction name params body e).1 (s'.newFunction name params body e').1 ∧
      w.Agree (s.newFunction name params body e).2 (s'.newFunction name params body e').2 :=
  ⟨⟨h.functions, rfl, rfl, rfl, he⟩, congrArg (· + 1) h.functions, h.between, h.hollow, h.bindings⟩

end Stores

end Padding

end Scriptlet
