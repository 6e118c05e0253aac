import Mathlib.Data.List.Forall2
import Mathlib.Order.Defs.PartialOrder
import Scriptlet.Proofs.Evaluation.RelatedValues
import Scriptlet.Proofs.Scope.Reachability

namespace Scriptlet

/-- A pair may be added to a one-to-one relation between smaller numbers. -/
theorem biUnique_insert {r : Nat → Nat → Prop} (hr : Relator.BiUnique r) {a b : Nat}
    (hlt : ∀ n n', r n n' → n < a ∧ n' < b) :
    Relator.BiUnique fun n n' => r n n' ∨ n = a ∧ n' = b := by
  constructor
  · rintro n k n' (h | ⟨rfl, rfl⟩) (h' | ⟨rfl, h'⟩)
    · exact hr.1 h h'
    · exact absurd (hlt n n' h).2 (Nat.not_lt.2 (Nat.le_of_eq h'.symm))
    · exact absurd (hlt k _ h').2 (Nat.lt_irrefl _)
    · rfl
  · rintro n n' k (h | ⟨rfl, rfl⟩) (h' | ⟨h', rfl⟩)
    · exact hr.2 h h'
    · exact absurd (hlt n n' h).1 (Nat.not_lt.2 (Nat.le_of_eq h'.symm))
    · exact absurd (hlt _ k h').1 (Nat.lt_irrefl _)
    · rfl

theorem Value.Related.and {F : Function → Function → Prop} {p : Function → Prop} {v v' : Value}
    (hv : v.Related F v') (hp : v.FunctionHas p) : v.Related (fun f f' => F f f' ∧ p f) v' := by
  cases hv with
  | @function f f' hf => exact .function ⟨hf, hp f rfl⟩
  | nil => exact .nil
  | bool b => exact .bool b
  | number x => exact .number x
  | string s => exact .string s

section Lookup

variable {α α' β β' : Type} {l : List α} {l' : List α'}

private theorem rel_findSome? {R : β → β' → Prop} {f : α → Option β} {g : α' → Option β'}
    (h : List.Forall₂ (fun a a' => Option.Rel R (f a) (g a')) l l') :
    Option.Rel R (l.findSome? f) (l'.findSome? g) := by
  induction h with
  | nil => exact .none
  | @cons a a' l l' ha _ ih =>
    rw [List.findSome?_cons, List.findSome?_cons]
    generalize f a = b at ha
    generalize g a' = b' at ha
    cases ha with
    | some hb => exact .some hb
    | none => exact ih

private theorem rel_find? {R : α → α' → Prop} {p : α → Bool} {q : α' → Bool}
    (h : List.Forall₂ (fun a a' => R a a' ∧ p a = q a') l l') :
    Option.Rel R (l.find? p) (l'.find? q) := by
  induction h with
  | nil => exact .none
  | @cons a a' l l' ha _ ih =>
    rw [List.find?_cons, List.find?_cons, ha.2]
    cases q a' with
    | true => exact .some ha.1
    | false => exact ih

theorem exists_mem_of_forall₂ {R : α → α' → Prop} (h : List.Forall₂ R l l') {a' : α'}
    (ha' : a' ∈ l') :
    ∃ a ∈ l, R a a' := by
  induction h with
  | nil => cases ha'
  | @cons b b' l l' hb _ ih =>
    rcases List.mem_cons.1 ha' with rfl | ha'
    · exact ⟨b, List.mem_cons_self, hb⟩
    · obtain ⟨a, ha, haa'⟩ := ih ha'
      exact ⟨a, List.mem_cons_of_mem b ha, haa'⟩

theorem rel_mono {R S : β → β' → Prop} (hRS : ∀ b b', R b b' → S b b') {o : Option β}
    {o' : Option β'} (h : Option.Rel R o o') : Option.Rel S o o' := by
  cases h with
  | some hb => exact .some (hRS _ _ hb)
  | none => exact .none

private theorem rel_flip {R : β → β' → Prop} {o : Option β} {o' : Option β'}
    (h : Option.Rel R o o') :
    Option.Rel (flip R) o' o := by
  cases h with
  | some hb => exact .some hb
  | none => exact .none

theorem isSome_eq_of_rel {R : β → β' → Prop} {o : Option β} {o' : Option β'}
    (h : Option.Rel R o o') : o.isSome = o'.isSome := by
  cases h <;> rfl

end Lookup

/-- Which scopes and functions of two stores correspond, by their numbers and identities. -/
structure Matching where
  scopes : Nat → Nat → Prop
  functions : Nat → Nat → Prop
  scopes_unique : Relator.BiUnique scopes
  functions_unique : Relator.BiUnique functions

namespace Matching

/-- What corresponds in the first matching corresponds in the second one. -/
structure Extends (w u : Matching) : Prop where
  scopes {n n' : Nat} : w.scopes n n' → u.scopes n n'
  functions {i i' : Nat} : w.functions i i' → u.functions i i'

instance : Preorder Matching where
  le := Extends
  le_refl _ := ⟨id, id⟩
  le_trans _ _ _ h h' := ⟨h'.scopes ∘ h.scopes, h'.functions ∘ h.functions⟩

def addScope (w : Matching) (n n' : Nat) (hlt : ∀ k k', w.scopes k k' → k < n ∧ k' < n') :
    Matching where
  scopes k k' := w.scopes k k' ∨ k = n ∧ k' = n'
  functions := w.functions
  scopes_unique := biUnique_insert w.scopes_unique hlt
  functions_unique := w.functions_unique

def addFunction (w : Matching) (i i' : Nat) (hlt : ∀ j j', w.functions j j' → j < i ∧ j' < i') :
    Matching where
  scopes := w.scopes
  functions j j' := w.functions j j' ∨ j = i ∧ j' = i'
  scopes_unique := w.scopes_unique
  functions_unique := biUnique_insert w.functions_unique hlt

/-- The scopes of the environments correspond, from the inside out. -/
def Envs (w : Matching) (e e' : Env) : Prop := List.Forall₂ w.scopes e.chain e'.chain

/-- The functions have the same code and correspond, and so do their closures. -/
structure Functions (w : Matching) (f f' : Function) : Prop where
  identity : w.functions f.identity f'.identity
  name : f.name = f'.name
  params : f.params = f'.params
  body : f.body = f'.body
  closure : w.Envs f.closure f'.closure

abbrev Values (w : Matching) : Value → Value → Prop := Value.Related w.Functions

/-- Only what is there corresponds. -/
structure Between (w : Matching) (s s' : Store) : Prop where
  scopes : ∀ n n', w.scopes n n' → n < s.scopes.size ∧ n' < s'.scopes.size
  functions : ∀ i i', w.functions i i' → i < s.functions ∧ i' < s'.functions

/-- The two scopes bind the same names, to corresponding values. -/
def SameBindings (w : Matching) (s s' : Store) (n n' : Nat) : Prop :=
  ∀ name, Option.Rel w.Values (s.valueIn? n name) (s'.valueIn? n' name)

/-- The stores agree on all that can be reached from the given environments of the first one. -/
structure Agree (w : Matching) (roots : List Env) (s s' : Store) : Prop where
  between : w.Between s s'
  scopes : ∀ n, s.ReachesScope roots n → ∃ n', w.scopes n n' ∧ w.SameBindings s s' n n'

variable {w u : Matching}

theorem Envs.mono (hwu : w ≤ u) {e e' : Env} (h : w.Envs e e') : u.Envs e e' :=
  h.imp fun _ _ => hwu.scopes

theorem Functions.mono (hwu : w ≤ u) {f f' : Function} (h : w.Functions f f') : u.Functions f f' :=
  ⟨hwu.functions h.identity, h.name, h.params, h.body, h.closure.mono hwu⟩

theorem Envs.own {e e' : Env} (h : w.Envs e e') : w.scopes e.own e'.own := by
  cases h with
  | cons hown _ => exact hown

theorem Envs.enclosing {e e' outer : Env} (h : w.Envs e e') (houter : e.enclosing? = some outer) :
    ∃ outer', e'.enclosing? = some outer' ∧ w.Envs outer outer' := by
  obtain ⟨own, around⟩ := e
  obtain ⟨own', around'⟩ := e'
  cases h with
  | cons _ haround =>
    cases haround with
    | nil => cases houter
    | cons hnext hmore =>
      cases houter
      exact ⟨_, rfl, .cons hnext hmore⟩

theorem envs_closures {v v' : Value} (h : w.Values v v') :
    List.Forall₂ w.Envs v.closures v'.closures := by
  cases h with
  | function hf => exact .cons hf.closure .nil
  | _ => exact .nil

theorem envs_closuresOf {vs vs' : List Value} (h : List.Forall₂ w.Values vs vs') :
    List.Forall₂ w.Envs (Value.closuresOf vs) (Value.closuresOf vs') := by
  induction h with
  | nil => exact .nil
  | cons hv _ ih => exact List.rel_append (envs_closures hv) ih

theorem Between.mono {s s' t t' : Store} (h : w.Between s s') (hs : s.scopes.size ≤ t.scopes.size)
    (hs' : s'.scopes.size ≤ t'.scopes.size) (hf : s.functions ≤ t.functions)
    (hf' : s'.functions ≤ t'.functions) : w.Between t t' where
  scopes n n' hn := (h.scopes n n' hn).imp (Nat.lt_of_lt_of_le · hs) (Nat.lt_of_lt_of_le · hs')
  functions i i' hi := (h.functions i i' hi).imp (Nat.lt_of_lt_of_le · hf) (Nat.lt_of_lt_of_le · hf')

def symm (w : Matching) : Matching where
  scopes := flip w.scopes
  functions := flip w.functions
  scopes_unique := ⟨fun _ _ _ h h' => w.scopes_unique.2 h h', w.scopes_unique.1.flip⟩
  functions_unique := ⟨fun _ _ _ h h' => w.functions_unique.2 h h', w.functions_unique.1.flip⟩

section Symmetry

variable {s s' : Store} {roots roots' : List Env}

theorem Envs.symm {e e' : Env} (h : w.Envs e e') : w.symm.Envs e' e := h.flip

theorem Functions.symm {f f' : Function} (h : w.Functions f f') : w.symm.Functions f' f :=
  ⟨h.identity, h.name.symm, h.params.symm, h.body.symm, h.closure.symm⟩

theorem SameBindings.symm {n n' : Nat} (h : w.SameBindings s s' n n') :
    w.symm.SameBindings s' s n' n :=
  fun name => rel_mono (fun _ _ hv => hv.flip.mono fun _ _ => Functions.symm) (rel_flip (h name))

/-- What the second store reaches corresponds to what the first one reaches. -/
theorem Agree.exists_reaches (h : w.Agree roots s s') (hroots : List.Forall₂ w.Envs roots roots')
    {e' : Env} (he' : s'.Reaches roots' e') : ∃ e, s.Reaches roots e ∧ w.Envs e e' := by
  induction he' with
  | @root e' he' =>
    obtain ⟨e, he, hmatched⟩ := exists_mem_of_forall₂ hroots he'
    exact ⟨e, .root he, hmatched⟩
  | @enclosing e' outer' _ houter' ih =>
    obtain ⟨e, he, hmatched⟩ := ih
    obtain ⟨outer, houter, houters⟩ := hmatched.symm.enclosing houter'
    exact ⟨outer, he.enclosing houter, houters.symm⟩
  | @closure e' name f' _ hf' ih =>
    obtain ⟨e, he, hmatched⟩ := ih
    obtain ⟨n', hn', hsame⟩ := h.scopes e.own ⟨e, he, rfl⟩
    obtain rfl : e'.own = n' := w.scopes_unique.2 hmatched.own hn'
    have hvalues := hsame name
    rw [hf'] at hvalues
    generalize hv : s.valueIn? e.own name = o at hvalues
    cases hvalues with
    | some hrelated =>
      cases hrelated with
      | @function f _ hf => exact ⟨f.closure, he.closure hv, hf.closure⟩

theorem Agree.symm (h : w.Agree roots s s') (hroots : List.Forall₂ w.Envs roots roots') :
    w.symm.Agree roots' s' s where
  between := ⟨fun n' n hn => (h.between.scopes n n' hn).symm,
    fun i' i hi => (h.between.functions i i' hi).symm⟩
  scopes := by
    rintro n' ⟨e', he', rfl⟩
    obtain ⟨e, he, hmatched⟩ := h.exists_reaches hroots he'
    obtain ⟨n', hn', hsame⟩ := h.scopes e.own ⟨e, he, rfl⟩
    obtain rfl : e'.own = n' := w.scopes_unique.2 hmatched.own hn'
    exact ⟨e.own, hmatched.own, hsame.symm⟩

end Symmetry

section Within

variable {p : Nat → Prop} {s s' : Store}

def EnvsWithin (w : Matching) (p : Nat → Prop) (e e' : Env) : Prop := w.Envs e e' ∧ e.Within p

def FunctionsWithin (w : Matching) (p : Nat → Prop) (f f' : Function) : Prop :=
  w.Functions f f' ∧ f.closure.Within p

structure AgreeWithin (w : Matching) (p : Nat → Prop) (s s' : Store) : Prop where
  between : w.Between s s'
  fresh : ∀ n, s.scopes.size ≤ n → p n
  bindings : ∀ n n', w.scopes n n' → p n → ∀ name,
    Option.Rel (Value.Related (w.FunctionsWithin p)) (s.valueIn? n name) (s'.valueIn? n' name)

theorem FunctionsWithin.mono (hwu : w ≤ u) {f f' : Function} (h : w.FunctionsWithin p f f') :
    u.FunctionsWithin p f f' :=
  ⟨h.1.mono hwu, h.2⟩

private theorem valuesWithin_mono (hwu : w ≤ u) {v v' : Value}
    (h : v.Related (w.FunctionsWithin p) v') :
    v.Related (u.FunctionsWithin p) v' :=
  h.mono fun _ _ => FunctionsWithin.mono hwu

/-- All pairs of scopes along the chains are of the kind on which the stores agree. -/
theorem EnvsWithin.forall₂ {e e' : Env} (h : w.EnvsWithin p e e') :
    List.Forall₂ (fun n n' => p n ∧ w.scopes n n') e.chain e'.chain :=
  (List.forall₂_and_left _ _).2 ⟨h.2, h.1⟩

theorem AgreeWithin.get? (h : w.AgreeWithin p s s') {e e' : Env} (he : w.EnvsWithin p e e')
    (name : String) :
    Option.Rel (Value.Related (w.FunctionsWithin p)) (s.get? e name) (s'.get? e' name) :=
  rel_findSome? (he.forall₂.imp fun n n' hn => h.bindings n n' hn.2 hn.1 name)

theorem AgreeWithin.holder? (h : w.AgreeWithin p s s') {e e' : Env} (he : w.EnvsWithin p e e')
    (name : String) :
    Option.Rel w.scopes (s.holder? e.chain name) (s'.holder? e'.chain name) :=
  rel_find? (he.forall₂.imp fun n n' hn =>
    ⟨hn.2, isSome_eq_of_rel (h.bindings n n' hn.2 hn.1 name)⟩)

theorem AgreeWithin.bindIn (h : w.AgreeWithin p s s') {n n' : Nat} (hn : w.scopes n n')
    (name : String) {v v' : Value} (hv : v.Related (w.FunctionsWithin p) v') :
    w.AgreeWithin p (s.bindIn n name v) (s'.bindIn n' name v') where
  between := by
    have hsize := Store.size_bindIn s n name v
    have hsize' := Store.size_bindIn s' n' name v'
    exact h.between.mono (Nat.le_of_eq hsize.symm) (Nat.le_of_eq hsize'.symm) (Nat.le_refl _)
      (Nat.le_refl _)
  fresh k hk := h.fresh k (Store.size_bindIn s n name v ▸ hk)
  bindings k k' hk hp x := by
    have hiff : n = k ↔ n' = k' := Relator.rel_eq w.scopes_unique hn hk
    obtain ⟨hlt, hlt'⟩ := h.between.scopes n n' hn
    rw [Store.valueIn?_bindIn, Store.valueIn?_bindIn]
    by_cases hsame : n = k ∧ name = x
    · rw [if_pos ⟨hsame.1, hsame.2, hlt⟩, if_pos ⟨hiff.1 hsame.1, hsame.2, hlt'⟩]
      exact .some hv
    · rw [if_neg fun heq => hsame ⟨heq.1, heq.2.1⟩,
        if_neg fun heq => hsame ⟨hiff.2 heq.1, heq.2.1⟩]
      exact h.bindings k k' hk hp x

theorem AgreeWithin.assign? (h : w.AgreeWithin p s s') {e e' : Env} (he : w.EnvsWithin p e e')
    (name : String) {v v' : Value} (hv : v.Related (w.FunctionsWithin p) v') :
    Option.Rel (w.AgreeWithin p) (s.assign? e name v) (s'.assign? e' name v') := by
  have hholder := h.holder? he name
  unfold Store.assign?
  generalize s.holder? e.chain name = o at hholder
  generalize s'.holder? e'.chain name = o' at hholder
  cases hholder with
  | some hn => exact .some (h.bindIn hn name hv)
  | none => exact .none

/-- The scopes that are opened next correspond. -/
theorem AgreeWithin.openScope (h : w.AgreeWithin p s s') {e e' : Env} (he : w.EnvsWithin p e e') :
    ∃ u, w ≤ u ∧ u.EnvsWithin p (s.openScope e.chain).1 (s'.openScope e'.chain).1 ∧
      u.AgreeWithin p (s.openScope e.chain).2 (s'.openScope e'.chain).2 := by
  let u := w.addScope s.scopes.size s'.scopes.size h.between.scopes
  have hwu : w ≤ u := ⟨.inl, id⟩
  have hwithin : (s.openScope e.chain).1.Within p :=
    List.forall_mem_cons.2 ⟨h.fresh _ (Nat.le_refl _), he.2⟩
  refine ⟨u, hwu, ⟨.cons (.inr ⟨rfl, rfl⟩) (he.1.mono hwu), hwithin⟩,
    ⟨?_, h.between.functions⟩, ?_, ?_⟩
  · intro n n' hn
    rw [Store.size_openScope, Store.size_openScope]
    rcases hn with hn | ⟨rfl, rfl⟩
    · exact (h.between.scopes n n' hn).imp Nat.lt_succ_of_lt Nat.lt_succ_of_lt
    · exact ⟨Nat.lt_succ_self _, Nat.lt_succ_self _⟩
  · intro n hn
    rw [Store.size_openScope] at hn
    exact h.fresh n (Nat.le_of_succ_le hn)
  · intro n n' hn hpn x
    rw [Store.valueIn?_openScope, Store.valueIn?_openScope]
    rcases hn with hn | ⟨rfl, rfl⟩
    · exact rel_mono (fun _ _ => valuesWithin_mono hwu) (h.bindings n n' hn hpn x)
    · rw [Store.valueIn?_of_size_le (Nat.le_refl _), Store.valueIn?_of_size_le (Nat.le_refl _)]
      exact .none

theorem AgreeWithin.newFunction (h : w.AgreeWithin p s s') (name : Token) (params : List Token)
    (body : List Stmt) {e e' : Env} (he : w.EnvsWithin p e e') :
    ∃ u, w ≤ u ∧
      u.FunctionsWithin p (s.newFunction name params body e).1
        (s'.newFunction name params body e').1 ∧
      u.AgreeWithin p (s.newFunction name params body e).2 (s'.newFunction name params body e').2 := by
  let u := w.addFunction s.functions s'.functions h.between.functions
  have hwu : w ≤ u := ⟨id, .inl⟩
  have hfunctions : u.Functions (s.newFunction name params body e).1
      (s'.newFunction name params body e').1 :=
    ⟨.inr ⟨rfl, rfl⟩, rfl, rfl, rfl, he.1.mono hwu⟩
  refine ⟨u, hwu, ⟨hfunctions, he.2⟩, ⟨h.between.scopes, ?_⟩, h.fresh, ?_⟩
  · rintro i i' (hi | ⟨rfl, rfl⟩)
    · exact (h.between.functions i i' hi).imp Nat.lt_succ_of_lt Nat.lt_succ_of_lt
    · exact ⟨Nat.lt_succ_self _, Nat.lt_succ_self _⟩
  · intro n n' hn hpn x
    exact rel_mono (fun _ _ => valuesWithin_mono hwu) (h.bindings n n' hn hpn x)

private theorem AgreeWithin.exists_env (h : w.AgreeWithin p s s') {roots : List Env}
    (hroots : ∀ e ∈ roots, ∃ e', w.EnvsWithin p e e') {e : Env} (he : s.Reaches roots e) :
    ∃ e', w.EnvsWithin p e e' := by
  induction he with
  | root he => exact hroots _ he
  | @enclosing e outer _ houter ih =>
    obtain ⟨e', he'⟩ := ih
    obtain ⟨outer', -, houters⟩ := he'.1.enclosing houter
    exact ⟨outer', houters, he'.2.enclosing houter⟩
  | @closure e name f _ hf ih =>
    obtain ⟨e', he'⟩ := ih
    have hvalues := h.bindings e.own e'.own he'.1.own (he'.2 _ List.mem_cons_self) name
    rw [hf] at hvalues
    generalize s'.valueIn? e'.own name = o at hvalues
    cases hvalues with
    | some hv =>
      cases hv with
      | @function _ f' hf' => exact ⟨f'.closure, hf'.1.closure, hf'.2⟩

/-- What is reached from scopes on which the stores agree are such scopes. -/
theorem AgreeWithin.agree (h : w.AgreeWithin p s s') {roots roots' : List Env}
    (hroots : List.Forall₂ w.Envs roots roots') (hwithin : ∀ e ∈ roots, e.Within p) :
    w.Agree roots s s' where
  between := h.between
  scopes := by
    rintro n ⟨e, he, rfl⟩
    have hmatched : ∀ e ∈ roots, ∃ e', w.EnvsWithin p e e' := by
      intro e he
      obtain ⟨e', -, henvs⟩ := exists_mem_of_forall₂ hroots.flip he
      exact ⟨e', henvs, hwithin e he⟩
    obtain ⟨e', he'⟩ := h.exists_env hmatched he
    refine ⟨e'.own, he'.1.own, fun name => ?_⟩
    have hbindings := h.bindings e.own e'.own he'.1.own (he'.2 _ List.mem_cons_self) name
    exact rel_mono (fun _ _ hv => hv.mono fun _ _ => And.left) hbindings

/-- Stores that agree on what is reached agree on a territory, since no scope corresponds to one that
is not there yet. -/
theorem Agree.within {roots : List Env} (h : w.Agree roots s s') :
    w.AgreeWithin (s.Territory roots) s s' where
  between := h.between
  fresh _ := .inr
  bindings n n' hn hp name := by
    have hclosed := s.closed_territory roots n name
    rcases hp with hreached | hle
    · obtain ⟨k', hk', hsame⟩ := h.scopes n hreached
      obtain rfl : n' = k' := w.scopes_unique.2 hn hk'
      have hvalues := hsame name
      generalize s.valueIn? n name = o at hclosed hvalues
      generalize s'.valueIn? n' name = o' at hvalues
      cases hvalues with
      | none => exact .none
      | some hv => exact .some (hv.and (hclosed _ (.inl hreached) rfl))
    · exact absurd (h.between.scopes n n' hn).1 (Nat.not_lt.2 hle)

end Within

end Matching

end Scriptlet
