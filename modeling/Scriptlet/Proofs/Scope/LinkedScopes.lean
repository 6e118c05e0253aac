import Scriptlet.Evaluation.Action
import Scriptlet.Proofs.Scope.Matching

namespace Scriptlet

open Scriptlet.Action

namespace Env

/-- What can be done with handles on scopes. Handles are numbered in the order in which they are given
out. -/
inductive Operation where
  | new
  | enclosed (handle : Nat)
  | clone (handle : Nat)
  | enclosing (handle : Nat)
  | define (handle : Nat) (name : String) (v : Value)
  | get (handle : Nat) (name : Token)
  | assign (handle : Nat) (name : Token) (v : Value)

inductive Answer where
  | nothing
  /-- Another handle, on this scope. -/
  | handle (scope : Nat)
  | value (v : Value)
  | error (e : RuntimeError)

/-- A machine, and environments for the handles that were given out. -/
structure Holding where
  machine : Machine
  envs : List Env

namespace Holding

def hold (s : Holding) (env : Env) : Answer × Holding :=
  (.handle env.own, { s with envs := s.envs ++ [env] })

/-- What comes of an action, be it an answer or an error. -/
def attempt (s : Holding) (x : Action Answer) : Answer × Holding :=
  match x s.machine with
  | .done answer machine => (answer, { s with machine })
  | .error e machine => (.error e, { s with machine })
  | .unfinished => (.nothing, s)

def opens (s : Holding) (outer : List Nat) : Answer × Holding :=
  let (env, store) := s.machine.store.openScope outer
  ({ s with machine := { s.machine with store } } : Holding).hold env

/-- Nothing is done with a handle that was never given out. -/
def through (s : Holding) (handle : Nat) (f : Env → Answer × Holding) : Answer × Holding :=
  match s.envs[handle]? with
  | none => (.nothing, s)
  | some env => f env

def step (s : Holding) : Operation → Answer × Holding
  | .new => s.opens []
  | .enclosed handle => s.through handle fun env => s.opens env.chain
  | .clone handle => s.through handle s.hold
  | .enclosing handle => s.through handle fun env =>
    match env.enclosing? with
    | none => (.nothing, s)
    | some outer => s.hold outer
  | .define handle name v => s.through handle fun env => s.attempt do
    Action.define env name v
    pure .nothing
  | .get handle name => s.through handle fun env => s.attempt do
    return .value (← Action.read env name)
  | .assign handle name v => s.through handle fun env => s.attempt do
    Action.assign env name v
    pure (.value v)

def run : List Operation → Holding → List Answer × Holding
  | [], s => ([], s)
  | op :: ops, s =>
    let (answer, s) := s.step op
    let (answers, s) := run ops s
    (answer :: answers, s)

end Holding

end Env

/-- Reading and assigning find the same binding: either there is one, which is read and which is all that
is changed, or both fail alike. -/
theorem Machine.read_assign (m : Machine) (env : Env) (name : Token) :
    (∃ n old, m.store.holder? env.chain name.lexeme = some n ∧
      m.store.valueIn? n name.lexeme = some old ∧ Action.read env name m = .done old m ∧
      ∀ v, Action.assign env name v m =
        .done () { m with store := m.store.bindIn n name.lexeme v }) ∨
    (m.store.holder? env.chain name.lexeme = none ∧
      Action.read env name m = .error ⟨name, .undefinedVariable name.lexeme⟩ m ∧
      ∀ v, Action.assign env name v m = .error ⟨name, .undefinedVariable name.lexeme⟩ m) := by
  obtain ⟨store, output, scope⟩ := m
  simp only [Action.read, Action.assign, Store.get?_eq]
  cases h : store.holder? env.chain name.lexeme with
  | none => exact .inr ⟨rfl, rfl, fun _ => rfl⟩
  | some n =>
    obtain ⟨old, hold⟩ := Option.isSome_iff_exists.1
      (List.find?_some (p := fun n => (store.valueIn? n name.lexeme).isSome) h)
    rw [Option.bind_some, hold]
    exact .inl ⟨n, old, rfl, hold, rfl, fun _ => rfl⟩

/-- The binding of the name in the scope is all that has changed. -/
structure Store.Changed (before : Store) (scope : Nat) (name : String) (v : Value) (after : Store) :
    Prop where
  size : after.scopes.size = before.scopes.size
  functions : after.functions = before.functions
  bindings : ∀ n x, after.valueIn? n x =
    if scope = n ∧ name = x then some v else before.valueIn? n x

private theorem Store.changed_bindIn {s : Store} {scope : Nat} (h : scope < s.scopes.size)
    (name : String) (v : Value) : s.Changed scope name v (s.bindIn scope name v) where
  size := size_bindIn s scope name v
  functions := rfl
  bindings n x := by
    rw [valueIn?_bindIn]
    simp only [h, and_true]

open Env

/-- A value was stored under a name in a scope. -/
structure ScopeTree.Write where
  scope : Nat
  name : String
  value : Value

/-- For each scope a link to the one around it, if there is one; all values that were stored, the latest
first; and the scopes of the handles that were given out. -/
structure ScopeTree where
  links : List (Option Nat)
  writes : List ScopeTree.Write
  held : List Nat

namespace ScopeTree

def empty : ScopeTree := ⟨[], [], []⟩

def parent? (t : ScopeTree) (scope : Nat) : Option Nat := t.links[scope]?.join

/-- The value that was stored last under the name in the scope. -/
def latest? (t : ScopeTree) (scope : Nat) (name : String) : Option Value :=
  (t.writes.find? fun w => w.scope = scope ∧ w.name = name).map Write.value

/-- The loop that looks a name up, from a scope outward, with the scope in which it finds the name and
the value there. There is no result if it has not ended after so many rounds. -/
def seek (t : ScopeTree) (name : String) : Nat → Nat → Option (Option (Nat × Value))
  | 0, _ => none
  | rounds + 1, scope =>
    match t.latest? scope name with
    | some v => some (some (scope, v))
    | none =>
      match t.parent? scope with
      | some outer => t.seek name rounds outer
      | none => some none

/-- The loop that counts the scopes around a scope. -/
def depth? (t : ScopeTree) : Nat → Nat → Option Nat
  | 0, _ => none
  | rounds + 1, scope =>
    match t.parent? scope with
    | some outer => (t.depth? rounds outer).map (· + 1)
    | none => some 0

def hold (t : ScopeTree) (scope : Nat) : Answer × ScopeTree :=
  (.handle scope, { t with held := t.held ++ [scope] })

def opens (t : ScopeTree) (outer : Option Nat) : Answer × ScopeTree :=
  ({ t with links := t.links ++ [outer] } : ScopeTree).hold t.links.length

def write (t : ScopeTree) (scope : Nat) (name : String) (v : Value) : ScopeTree :=
  { t with writes := ⟨scope, name, v⟩ :: t.writes }

def through (t : ScopeTree) (handle : Nat) (f : Nat → Option (Answer × ScopeTree)) :
    Option (Answer × ScopeTree) :=
  match t.held[handle]? with
  | none => some (.nothing, t)
  | some scope => f scope

/-- A loop gets one round for its scope and one for each older scope. -/
def step (t : ScopeTree) : Operation → Option (Answer × ScopeTree)
  | .new => t.opens none
  | .enclosed handle => t.through handle fun scope => t.opens (some scope)
  | .clone handle => t.through handle fun scope => t.hold scope
  | .enclosing handle => t.through handle fun scope =>
    match t.parent? scope with
    | none => some (.nothing, t)
    | some outer => t.hold outer
  | .define handle name v => t.through handle fun scope => some (.nothing, t.write scope name v)
  | .get handle name => t.through handle fun scope =>
    (t.seek name.lexeme (scope + 1) scope).map fun
      | none => (.error ⟨name, .undefinedVariable name.lexeme⟩, t)
      | some (_, v) => (.value v, t)
  | .assign handle name v => t.through handle fun scope =>
    (t.seek name.lexeme (scope + 1) scope).map fun
      | none => (.error ⟨name, .undefinedVariable name.lexeme⟩, t)
      | some (holder, _) => (.value v, t.write holder name.lexeme v)

/-- There is no result if a loop does not end. -/
def run : List Operation → ScopeTree → Option (List Answer × ScopeTree)
  | [], t => some ([], t)
  | op :: ops, t =>
    (t.step op).bind fun (answer, t) => (run ops t).map fun (answers, t) => (answer :: answers, t)

/-- The links lead from a scope through just the scopes around it. -/
inductive Follows (t : ScopeTree) : Nat → List Nat → Prop where
  | root {scope : Nat} : t.links[scope]? = some none → Follows t scope []
  | link {scope outer : Nat} {around : List Nat} : t.links[scope]? = some (some outer) →
    Follows t outer around → Follows t scope (outer :: around)

/-- Each link leads to a scope that was there before. -/
def Ordered (t : ScopeTree) : Prop := ∀ scope outer, t.parent? scope = some outer → outer < scope

/-- The handle is on the scope, and the environment lists the scopes that the links lead to. -/
structure Names (t : ScopeTree) (env : Env) (scope : Nat) : Prop where
  own : env.own = scope
  outer : t.Follows scope env.outer

structure Mirrors (t : ScopeTree) (s : Holding) : Prop where
  size : t.links.length = s.machine.store.scopes.size
  ordered : t.Ordered
  handles : List.Forall₂ t.Names s.envs t.held
  values : ∀ scope name, s.machine.store.valueIn? scope name = t.latest? scope name

variable {t : ScopeTree} {s : Holding}

private theorem Follows.parent?_eq {scope : Nat} {around : List Nat} (h : t.Follows scope around) :
    t.parent? scope = around.head? := by
  cases h with
  | root hlink => rw [parent?, hlink]; rfl
  | link hlink _ => rw [parent?, hlink]; rfl

theorem Follows.lt_length {scope : Nat} {around : List Nat} (h : t.Follows scope around) :
    scope < t.links.length := by
  cases h with
  | root hlink => exact (List.getElem?_eq_some_iff.1 hlink).1
  | link hlink _ => exact (List.getElem?_eq_some_iff.1 hlink).1

theorem Follows.length_le (ht : t.Ordered) {scope : Nat} {around : List Nat}
    (h : t.Follows scope around) : around.length ≤ scope := by
  induction h with
  | root _ => exact Nat.zero_le _
  | @link scope outer around hlink _ ih =>
    have hlt : outer < scope := ht scope outer (by rw [parent?, hlink]; rfl)
    exact Nat.succ_le_of_lt (Nat.lt_of_le_of_lt ih hlt)

/-- The loop finds what is found along the chain. -/
theorem seek_eq (hvalues : ∀ scope name, s.machine.store.valueIn? scope name = t.latest? scope name)
    (name : String) {scope : Nat} {around : List Nat} (h : t.Follows scope around) {rounds : Nat}
    (hrounds : around.length < rounds) :
    t.seek name rounds scope = some ((s.machine.store.holder? (scope :: around) name).bind fun n =>
      (s.machine.store.valueIn? n name).map (n, ·)) := by
  have hfound {scope : Nat} {around : List Nat} {v : Value}
      (hv : s.machine.store.valueIn? scope name = some v) :
      (s.machine.store.holder? (scope :: around) name).bind (fun n =>
        (s.machine.store.valueIn? n name).map (n, ·)) = some (scope, v) := by
    rw [Store.holder?, List.find?_cons, hv]
    exact congrArg (Option.map (scope, ·)) hv
  induction h generalizing rounds with
  | @root scope hlink =>
    obtain ⟨rounds, rfl⟩ := Nat.exists_eq_succ_of_ne_zero (Nat.ne_of_gt hrounds)
    rw [seek, ← hvalues, Follows.parent?_eq (.root hlink)]
    cases hv : s.machine.store.valueIn? scope name with
    | some v => exact congrArg some (hfound hv).symm
    | none => rw [Store.holder?, List.find?_cons, hv]; rfl
  | @link scope outer around hlink hmore ih =>
    obtain ⟨rounds, rfl⟩ := Nat.exists_eq_succ_of_ne_zero (Nat.ne_of_gt (Nat.zero_lt_of_lt hrounds))
    rw [seek, ← hvalues, Follows.parent?_eq (.link hlink hmore)]
    cases hv : s.machine.store.valueIn? scope name with
    | some v => exact congrArg some (hfound hv).symm
    | none =>
      rw [Store.holder?, List.find?_cons, hv]
      exact ih (Nat.lt_of_succ_lt_succ hrounds)

private theorem depth?_eq {scope : Nat} {around : List Nat} (h : t.Follows scope around)
    {rounds : Nat}
    (hrounds : around.length < rounds) : t.depth? rounds scope = some around.length := by
  induction h generalizing rounds with
  | @root scope hlink =>
    obtain ⟨rounds, rfl⟩ := Nat.exists_eq_succ_of_ne_zero (Nat.ne_of_gt hrounds)
    rw [depth?, Follows.parent?_eq (.root hlink)]
    rfl
  | @link scope outer around hlink hmore ih =>
    obtain ⟨rounds, rfl⟩ := Nat.exists_eq_succ_of_ne_zero (Nat.ne_of_gt (Nat.zero_lt_of_lt hrounds))
    rw [depth?, Follows.parent?_eq (.link hlink hmore)]
    exact congrArg (Option.map (· + 1)) (ih (Nat.lt_of_succ_lt_succ hrounds))

theorem Follows.append {u : ScopeTree} {more : List (Option Nat)} (hu : u.links = t.links ++ more)
    {scope : Nat} {around : List Nat} (h : t.Follows scope around) : u.Follows scope around := by
  have hlinks {scope : Nat} {outer : Option Nat} (h : t.links[scope]? = some outer) :
      u.links[scope]? = some outer := by
    rw [hu, List.getElem?_append_left (List.getElem?_eq_some_iff.1 h).1, h]
  induction h with
  | root hlink => exact .root (hlinks hlink)
  | link hlink _ ih => exact .link (hlinks hlink) ih

theorem Names.append {u : ScopeTree} {more : List (Option Nat)} (hu : u.links = t.links ++ more)
    {env : Env} {scope : Nat} (h : t.Names env scope) : u.Names env scope :=
  ⟨h.own, h.outer.append hu⟩

theorem Names.enclosing {env outer : Env} {scope : Nat} (h : t.Names env scope)
    (houter : env.enclosing? = some outer) :
    t.parent? scope = some outer.own ∧ t.Names outer outer.own := by
  obtain ⟨own, around⟩ := env
  have hparent := h.outer.parent?_eq
  cases around with
  | nil => cases houter
  | cons next around =>
    cases houter
    refine ⟨hparent, rfl, ?_⟩
    cases h.outer with
    | link _ hmore => exact hmore

private theorem Names.parent?_eq_none {env : Env} {scope : Nat} (h : t.Names env scope)
    (houter : env.enclosing? = none) : t.parent? scope = none := by
  obtain ⟨own, around⟩ := env
  have hparent := h.outer.parent?_eq
  cases around with
  | nil => exact hparent
  | cons next around => cases houter

private theorem Names.seek_eq (hs : t.Mirrors s) {env : Env} {scope : Nat} (h : t.Names env scope)
    (name : String) :
    t.seek name (scope + 1) scope = some ((s.machine.store.holder? env.chain name).bind fun n =>
      (s.machine.store.valueIn? n name).map (n, ·)) := by
  obtain ⟨rfl, houter⟩ := h
  exact ScopeTree.seek_eq hs.values name houter (Nat.lt_succ_of_le (houter.length_le hs.ordered))

/-- The answers are the same, and afterwards the scopes still are. -/
def Agrees (r : Answer × ScopeTree) (r' : Answer × Holding) : Prop := r.1 = r'.1 ∧ r.2.Mirrors r'.2

theorem Mirrors.hold (hs : t.Mirrors s) {env : Env} {scope : Nat} (h : t.Names env scope) :
    Agrees (t.hold scope) (s.hold env) := by
  refine ⟨congrArg Answer.handle h.own.symm, hs.size, hs.ordered, ?_, hs.values⟩
  have hlinks : (t.hold scope).2.links = t.links ++ [] := (List.append_nil _).symm
  have hhandles := hs.handles.imp fun _ _ h => h.append hlinks
  exact List.rel_append hhandles (.cons (h.append hlinks) .nil)

private theorem ordered_append (ht : t.Ordered) {link : Option Nat}
    (hlink : ∀ outer, link = some outer → outer < t.links.length) :
    Ordered { t with links := t.links ++ [link] } := by
  intro scope outer h
  rw [parent?, Option.join_eq_some_iff] at h
  rcases Nat.lt_or_ge scope t.links.length with hlt | hge
  · rw [List.getElem?_append_left hlt] at h
    exact ht scope outer (Option.join_eq_some_iff.2 h)
  · have hlast : scope = t.links.length := by
      have hlt := (List.getElem?_eq_some_iff.1 h).1
      rw [List.length_append, List.length_singleton] at hlt
      omega
    subst hlast
    rw [List.getElem?_concat_length] at h
    exact hlink outer (Option.some.inj h)

/-- The new scope stands where its link leads. -/
theorem Mirrors.opens (hs : t.Mirrors s) {link : Option Nat} {outer : List Nat}
    (houter : ∀ u : ScopeTree, u.links = t.links ++ [link] → u.Follows t.links.length outer)
    (hlink : ∀ n, link = some n → n < t.links.length) :
    Agrees (t.opens link) (s.opens outer) := by
  refine Mirrors.hold ⟨?_, ordered_append hs.ordered hlink, ?_, ?_⟩ ⟨hs.size.symm, houter _ rfl⟩
  · simp [hs.size]
  · exact hs.handles.imp fun _ _ h => h.append rfl
  · intro scope name
    exact (s.machine.store.valueIn?_openScope outer scope name).trans (hs.values scope name)

private theorem Mirrors.opens_inside (hs : t.Mirrors s) {env : Env} {scope : Nat}
    (h : t.Names env scope) :
    Agrees (t.opens (some scope)) (s.opens env.chain) := by
  have hlt := h.outer.lt_length
  obtain ⟨rfl, houter⟩ := h
  refine hs.opens (fun u hu => .link ?_ (houter.append hu)) fun n hn => Option.some.inj hn ▸ hlt
  rw [hu, List.getElem?_concat_length]

theorem Mirrors.write (hs : t.Mirrors s) {scope : Nat}
    (hscope : scope < s.machine.store.scopes.size) (name : String) (v : Value) :
    (t.write scope name v).Mirrors
      { s with machine := { s.machine with store := s.machine.store.bindIn scope name v } } where
  size := by rw [Store.size_bindIn]; exact hs.size
  ordered := hs.ordered
  handles := by
    have hlinks : (t.write scope name v).links = t.links ++ [] := (List.append_nil _).symm
    exact hs.handles.imp fun _ _ h => h.append hlinks
  values n x := by
    rw [Store.valueIn?_bindIn, latest?, ScopeTree.write, List.find?_cons]
    by_cases h : scope = n ∧ name = x
    · rw [if_pos ⟨h.1, h.2, hscope⟩]
      simp only [h, and_self, decide_true]
      rfl
    · rw [if_neg fun h' => h ⟨h'.1, h'.2.1⟩, hs.values n x]
      simp only [h, decide_false]
      rfl

private theorem rel_getElem? {α β : Type} {R : α → β → Prop} {l : List α} {l' : List β}
    (h : List.Forall₂ R l l') (i : Nat) : Option.Rel R l[i]? l'[i]? := by
  induction h generalizing i with
  | nil => exact .none
  | cons hab _ ih =>
    cases i with
    | zero => exact .some hab
    | succ i => exact ih i

private theorem Mirrors.through (hs : t.Mirrors s) (handle : Nat)
    {f : Nat → Option (Answer × ScopeTree)} {g : Env → Answer × Holding}
    (h : ∀ env scope, t.Names env scope → ∃ r, f scope = some r ∧ Agrees r (g env)) :
    ∃ r, t.through handle f = some r ∧ Agrees r (s.through handle g) := by
  have hhandle := rel_getElem? hs.handles handle
  unfold ScopeTree.through Holding.through
  generalize s.envs[handle]? = o at hhandle
  generalize t.held[handle]? = o' at hhandle
  cases hhandle with
  | none => exact ⟨_, rfl, rfl, hs⟩
  | some hnames => exact h _ _ hnames

/-- The answer to an operation is the same, and the loops end. -/
theorem Mirrors.step (hs : t.Mirrors s) (op : Operation) :
    ∃ r, t.step op = some r ∧ Agrees r (s.step op) := by
  cases op with
  | new =>
    refine ⟨_, rfl, hs.opens (fun u hu => .root ?_) fun n hn => by cases hn⟩
    rw [hu, List.getElem?_concat_length]
  | enclosed handle =>
    exact hs.through handle fun env scope h => ⟨_, rfl, hs.opens_inside h⟩
  | clone handle => exact hs.through handle fun env scope h => ⟨_, rfl, hs.hold h⟩
  | enclosing handle =>
    apply hs.through handle
    intro env scope h
    cases houter : env.enclosing? with
    | none => exact ⟨_, by rw [h.parent?_eq_none houter], rfl, hs⟩
    | some outer =>
      obtain ⟨hparent, hnames⟩ := h.enclosing houter
      exact ⟨_, by rw [hparent], hs.hold hnames⟩
  | define handle name v =>
    apply hs.through handle
    rintro env _ ⟨rfl, houter⟩
    have hlt : env.own < s.machine.store.scopes.size := hs.size ▸ houter.lt_length
    exact ⟨_, rfl, rfl, hs.write hlt name v⟩
  | get handle name =>
    apply hs.through handle
    intro env scope h
    rw [h.seek_eq hs]
    rcases s.machine.read_assign env name with ⟨n, old, hholder, hold, hread, -⟩ | ⟨hnone, hread, -⟩
    · rw [hholder, Option.bind_some, hold, Holding.attempt, bind_apply, hread]
      exact ⟨_, rfl, rfl, hs⟩
    · rw [hnone, Holding.attempt, bind_apply, hread]
      exact ⟨_, rfl, rfl, hs⟩
  | assign handle name v =>
    apply hs.through handle
    intro env scope h
    rw [h.seek_eq hs]
    rcases s.machine.read_assign env name with ⟨n, old, hholder, hold, -, hassign⟩ | ⟨hnone, -, hassign⟩
    · have hlt : n < s.machine.store.scopes.size := Store.lt_size_of_valueIn? hold
      rw [hholder, Option.bind_some, hold, Holding.attempt, bind_apply, hassign]
      exact ⟨_, rfl, rfl, hs.write hlt name.lexeme v⟩
    · rw [hnone, Holding.attempt, bind_apply, hassign]
      exact ⟨_, rfl, rfl, hs⟩

theorem Mirrors.run (hs : t.Mirrors s) (ops : List Operation) :
    ∃ last, run ops t = some ((Holding.run ops s).1, last) ∧ last.Mirrors (Holding.run ops s).2 := by
  induction ops generalizing t s with
  | nil => exact ⟨t, rfl, hs⟩
  | cons op ops ih =>
    obtain ⟨⟨answer, u⟩, hstep, hanswer, hu⟩ := hs.step op
    obtain ⟨last, hrun, hlast⟩ := ih hu
    obtain rfl : answer = (s.step op).1 := hanswer
    refine ⟨last, ?_, hlast⟩
    rw [ScopeTree.run, hstep]
    exact congrArg (Option.map fun (answers, t) => ((s.step op).1 :: answers, t)) hrun

private theorem mirrors_empty (m : Machine) : empty.Mirrors ⟨{ m with store := .empty }, []⟩ where
  size := rfl
  ordered scope outer h := by cases h
  handles := .nil
  values scope name := by simp [Store.valueIn?, Store.empty, latest?, empty]

/-- What the operations on a handle do. Reading and assigning agree on the innermost binding of the name,
and a definition is about the scope of the handle; no other binding is changed. -/
structure Serves (t : ScopeTree) (m : Machine) (env : Env) : Prop where
  described : ∃ depth, t.depth? (env.own + 1) env.own = some depth ∧
    m.store.describe env = "Environment \x7b bindings: " ++
      toString ((m.store.scopes[env.own]?.map Bindings.size).getD 0) ++ ", depth: " ++
        toString depth ++ " \x7d"
  defined : ∀ name v, ∃ store, Action.define env name v m = .done () { m with store } ∧
    m.store.Changed env.own name v store
  found : ∀ name : Token,
    (∃ n old, t.seek name.lexeme (env.own + 1) env.own = some (some (n, old)) ∧
      Action.read env name m = .done old m ∧
      ∀ v, ∃ store, Action.assign env name v m = .done () { m with store } ∧
        m.store.Changed n name.lexeme v store) ∨
    (t.seek name.lexeme (env.own + 1) env.own = some none ∧
      Action.read env name m = .error ⟨name, .undefinedVariable name.lexeme⟩ m ∧
      ∀ v, Action.assign env name v m = .error ⟨name, .undefinedVariable name.lexeme⟩ m)

private theorem Names.serves (hs : t.Mirrors s) {env : Env} {scope : Nat} (h : t.Names env scope) :
    t.Serves s.machine env where
  described := by
    obtain ⟨rfl, houter⟩ := h
    exact ⟨_, depth?_eq houter (Nat.lt_succ_of_le (houter.length_le hs.ordered)), rfl⟩
  defined name v := by
    obtain ⟨rfl, houter⟩ := h
    exact ⟨_, rfl, Store.changed_bindIn (hs.size ▸ houter.lt_length) name v⟩
  found name := by
    have hseek := h.seek_eq hs name.lexeme
    rw [← h.own] at hseek
    rcases s.machine.read_assign env name with ⟨n, old, hholder, hold, hread, hassign⟩ |
      ⟨hnone, hread, hassign⟩
    · rw [hholder, Option.bind_some, hold] at hseek
      exact .inl ⟨n, old, hseek, hread, fun v => ⟨_, hassign v,
        Store.changed_bindIn (Store.lt_size_of_valueIn? hold) name.lexeme v⟩⟩
    · rw [hnone] at hseek
      exact .inr ⟨hseek, hread, hassign⟩

/-- Whatever is done with handles, the answers are those of linked scopes, in which a name means the
value that was last stored in the innermost scope that has it. -/
theorem handles_share_linked_scopes (ops : List Operation) (m : Machine) :
    let r := Holding.run ops ⟨{ m with store := .empty }, []⟩
    ∃ t, run ops empty = some (r.1, t) ∧ t.Ordered ∧ List.Forall₂ t.Names r.2.envs t.held ∧
      (∀ scope name, r.2.machine.store.valueIn? scope name = t.latest? scope name) ∧
      ∀ env ∈ r.2.envs, t.Serves r.2.machine env := by
  obtain ⟨t, hrun, ht⟩ := (mirrors_empty m).run ops
  refine ⟨t, hrun, ht.ordered, ht.handles, ht.values, fun env henv => ?_⟩
  obtain ⟨scope, -, hnames⟩ := exists_mem_of_forall₂ ht.handles.flip henv
  exact hnames.serves ht

/-- Two handles on the inner scope: what one of them does is seen through the other. The first assignment
goes to the outer scope, as the inner one does not have the name yet. -/
theorem handles_share_inner_scope :
    let a : Token := ⟨.identifier, "a", none, 1⟩
    let b : Token := ⟨.identifier, "b", none, 2⟩
    let ops : List Operation := [.new, .define 0 "a" (.bool true), .enclosed 0, .clone 1, .assign 2 a .nil,
      .define 1 "a" (.string "inner"), .get 2 a, .get 0 a, .assign 1 b .nil]
    ∃ t, run ops empty = some ([.handle 0, .nothing, .handle 1, .handle 1, .value .nil, .nothing,
      .value (.string "inner"), .value .nil, .error ⟨b, .undefinedVariable "b"⟩], t) ∧ t.Ordered := by
  intro a b ops
  obtain ⟨t, hrun, hordered, -⟩ := handles_share_linked_scopes ops ⟨.empty, .empty none, ⟨0, []⟩⟩
  exact ⟨t, hrun, hordered⟩

end ScopeTree

end Scriptlet
