import Scriptlet.Proofs.Evaluation.Instrument
import Scriptlet.Proofs.Evaluation.Invariant
import Scriptlet.Proofs.Scope.Lookup

namespace Scriptlet

open Scriptlet.Action Evaluation

/-- What is watched for. -/
structure Sentinel where
  /-- The function that is followed. -/
  identity : Nat
  name : String
  /-- Where the name should be found, by the store as it is, the closure, and the scope in which the
  closure found it when the function was made. -/
  expected : Store → Env → Nat → Nat
  /-- What is done first where it is found elsewhere. -/
  alarm : Action Unit

/-- What a sentinel has noted. -/
structure Watch where
  /-- The closure of the function, and the scope in which it found the name. -/
  home : Option (Env × Nat)
  /-- The scopes in which code of the function runs or has run: those of its calls, of the calls of
  functions that are made there, and of the blocks in them. -/
  inside : List Env

namespace Watch

/-- Nothing has been made yet. -/
def start : Watch := ⟨none, []⟩

/-- What runs in the scope is code of the function. -/
def mark (w : Watch) (env : Env) : Watch := { w with inside := env :: w.inside }

end Watch

def Watched (α : Type) := Watch → Machine → Watch × Outcome α

namespace Watched

variable {α β : Type}

protected def pure (a : α) : Watched α := fun w m => (w, .done a m)

/-- What was noted stays noted, also if there is an error. -/
protected def bind (x : Watched α) (f : α → Watched β) : Watched β := fun w m =>
  match x w m with
  | (w, .done a m) => f a w m
  | (w, .error e m) => (w, .error e m)
  | (w, .unfinished) => (w, .unfinished)

instance : Monad Watched where
  pure := Watched.pure
  bind := Watched.bind

/-- Nothing is noted. -/
def ofAction (x : Action α) : Watched α := fun w m => (w, x m)

def inScope (env : Env) (x : Watched α) : Watched α := fun w m =>
  ((x w { m with scope := env }).1, Action.inScope env (fun m => (x w m).2) m)

end Watched

namespace Sentinel

variable (σ : Sentinel)

/-- The name is none of those that are declared. -/
def Spares (declared : List Token) : Prop := ∀ t ∈ declared, t.lexeme ≠ σ.name

instance (declared : List Token) : Decidable (σ.Spares declared) :=
  inferInstanceAs (Decidable (∀ t ∈ declared, t.lexeme ≠ σ.name))

/-- What there is to note where a function is about to be made. -/
def noted (w : Watch) (params : List Token) (body : List Stmt) (s : Store) (closure : Env) : Watch :=
  if s.functions = σ.identity ∧ σ.Spares (params ++ Stmt.declarationsAll body) then
    { w with home := (s.holder? closure.chain σ.name).map (closure, ·) }
  else w

/-- The name is found where it should be. -/
def Finds (w : Watch) (m : Machine) : Prop :=
  ∀ home ∈ w.home, m.store.holder? m.scope.chain σ.name = some (σ.expected m.store home.1 home.2)

instance (w : Watch) (m : Machine) : Decidable (σ.Finds w m) :=
  inferInstanceAs (Decidable (∀ home ∈ w.home, _ = _))

/-- Looks where a name is found that the code of the function reads or assigns to. -/
def look (name : Token) : Watched Unit := fun w m =>
  if name.lexeme = σ.name ∧ m.scope ∈ w.inside ∧ ¬σ.Finds w m then (w, σ.alarm m)
  else (w, .done () m)

/-- The code that a call runs is code of the function: of the function itself, or of one that was made
where its code runs. Such a one declares no more names than the function does. -/
def Follows (w : Watch) (f : Function) : Prop :=
  σ.Spares f.declarations ∧
    (f.identity = σ.identity ∧ w.home.map Prod.fst = some f.closure ∨ f.closure ∈ w.inside)

instance (w : Watch) (f : Function) : Decidable (σ.Follows w f) :=
  inferInstanceAs (Decidable (_ ∧ _))

end Sentinel

namespace Instrument

open Watched

def watched (σ : Sentinel) : Instrument Watched where
  read name := do
    σ.look name
    ofAction (plain.read name)
  assign name v := do
    σ.look name
    ofAction (plain.assign name v)
  define name v := ofAction (plain.define name v)
  declare name params body := fun w m =>
    (σ.noted w params body m.store m.scope, plain.declare name params body m)
  print keyword text := ofAction (plain.print keyword text)
  raise token fault := ofAction (plain.raise token fault)
  cutOff := ofAction plain.cutOff
  broken := pure .normal
  inBlock x := do
    let outer ← ofAction Action.scope
    let inner ← ofAction (Action.openScope outer.chain)
    fun w => inScope inner x (if outer ∈ w.inside then w.mark inner else w)
  inCall f args x := do
    let env ← ofAction do
      let env ← Action.openScope f.closure.chain
      Action.defineAll env f.params args
      pure env
    fun w => inScope env x (if σ.Follows w f then w.mark env else w)

end Instrument

namespace Store

variable {s : Store} {name : String}

/-- The scope of the closure in which the name is now, if it was in the given one before: the nearest
one that has come to bind it since, or else still the same. -/
def homeNow (name : String) (s : Store) (closure : Env) (scope : Nat) : Nat :=
  (s.holder? (closure.chain.takeWhile (· ≠ scope)) name).getD scope

private theorem holder?_eq_homeNow {closure : Env} {scope : Nat} (hmem : scope ∈ closure.chain)
    (hbound : (s.valueIn? scope name).isSome) :
    s.holder? closure.chain name = some (s.homeNow name closure scope) := by
  unfold homeNow holder?
  generalize closure.chain = chain at hmem ⊢
  induction chain with
  | nil => cases hmem
  | cons n rest ih =>
    by_cases hn : n = scope
    · subst hn
      simp [hbound]
    · have hrest : scope ∈ rest := List.mem_of_ne_of_mem (Ne.symm hn) hmem
      rw [List.takeWhile_cons_of_pos (by simpa using hn), List.find?_cons, List.find?_cons]
      cases (s.valueIn? n name).isSome with
      | true => rfl
      | false => exact ih hrest

/-- Scopes that do not bind the name do not count. -/
theorem holder?_append_of_unbound {locals chain : List Nat}
    (h : ∀ n ∈ locals, s.valueIn? n name = none) :
    s.holder? (locals ++ chain) name = s.holder? chain name := by
  have hlocals : s.holder? locals name = none :=
    List.find?_eq_none.2 fun n hn => by simp [h n hn]
  unfold holder? at *
  rw [List.find?_append, hlocals, Option.none_or]

end Store

namespace Watch

/-- Between the scope and the closure are only scopes in which code of the function runs. -/
def LeadsTo (w : Watch) (closure e : Env) : Prop :=
  ∃ locals, e.chain = locals ++ closure.chain ∧ ∀ n ∈ locals, ∃ e' ∈ w.inside, e'.own = n

variable {w : Watch} {closure e : Env}

theorem LeadsTo.refl (w : Watch) (closure : Env) : w.LeadsTo closure closure :=
  ⟨[], rfl, List.forall_mem_nil _⟩

private theorem LeadsTo.mark (h : w.LeadsTo closure e) (env : Env) :
    (w.mark env).LeadsTo closure e := by
  obtain ⟨locals, hchain, hlocals⟩ := h
  refine ⟨locals, hchain, fun n hn => ?_⟩
  obtain ⟨e', he', hown⟩ := hlocals n hn
  exact ⟨e', .tail env he', hown⟩

/-- Code of the function comes to run in a scope inside one that leads to the closure. -/
theorem LeadsTo.inner (h : w.LeadsTo closure e) {env : Env}
    (hchain : env.chain = env.own :: e.chain) :
    (w.mark env).LeadsTo closure env := by
  obtain ⟨locals, hlocals, hmarked⟩ := h.mark env
  refine ⟨env.own :: locals, by rw [hchain, hlocals, List.cons_append], ?_⟩
  exact List.forall_mem_cons.2 ⟨⟨env, List.mem_cons_self, rfl⟩, hmarked⟩

end Watch

namespace Sentinel

variable {σ : Sentinel} {w : Watch} {s : Store}

/-- The scope that was noted is around the closure and binds the name; no scope between the closure
and one in which code of the function runs does. -/
structure Fits (σ : Sentinel) (w : Watch) (s : Store) : Prop where
  unmade : s.functions ≤ σ.identity → w.home = none
  unmarked : w.home = none → w.inside = []
  home {closure : Env} {scope : Nat} : w.home = some (closure, scope) →
    scope ∈ closure.chain ∧ (s.valueIn? scope σ.name).isSome
  leads {closure e : Env} {scope : Nat} : w.home = some (closure, scope) → e ∈ w.inside →
    w.LeadsTo closure e
  inside {e : Env} : e ∈ w.inside → e.own < s.scopes.size ∧ s.valueIn? e.own σ.name = none

/-- The code of the function always finds the name in a scope of the closure. -/
theorem Fits.holder?_eq (h : σ.Fits w s) {closure e : Env} {scope : Nat}
    (hhome : w.home = some (closure, scope)) (he : e ∈ w.inside) :
    s.holder? e.chain σ.name = some (s.homeNow σ.name closure scope) := by
  obtain ⟨locals, hchain, hlocals⟩ := h.leads hhome he
  obtain ⟨hmem, hbound⟩ := h.home hhome
  have hunbound : ∀ n ∈ locals, s.valueIn? n σ.name = none := by
    intro n hn
    obtain ⟨e', he', rfl⟩ := hlocals n hn
    exact (h.inside he').2
  rw [hchain, Store.holder?_append_of_unbound hunbound, Store.holder?_eq_homeNow hmem hbound]

theorem fits_start (s : Store) : σ.Fits .start s where
  unmade _ := rfl
  unmarked _ := rfl
  home h := by cases h
  leads h := by cases h
  inside h := by cases h

theorem Fits.openScope (h : σ.Fits w s) (outer : List Nat) : σ.Fits w (s.openScope outer).2 where
  unmade := h.unmade
  unmarked := h.unmarked
  home hhome := by
    rw [Store.valueIn?_openScope]
    exact h.home hhome
  leads := h.leads
  inside he := by
    rw [Store.valueIn?_openScope, Store.size_openScope]
    obtain ⟨hlt, hunbound⟩ := h.inside he
    exact ⟨Nat.lt_succ_of_lt hlt, hunbound⟩

/-- Bindings are not removed, and the name is not bound where code of the function runs. -/
theorem Fits.bindIn (h : σ.Fits w s) {scope : Nat} {name : String}
    (hname : ∀ e ∈ w.inside, e.own = scope → name ≠ σ.name) (v : Value) :
    σ.Fits w (s.bindIn scope name v) where
  unmade := h.unmade
  unmarked := h.unmarked
  home hhome := by
    rw [Store.valueIn?_bindIn]
    split
    · exact ⟨(h.home hhome).1, rfl⟩
    · exact h.home hhome
  leads := h.leads
  inside {e} he := by
    rw [Store.size_bindIn, Store.valueIn?_bindIn, if_neg]
    · exact h.inside he
    · rintro ⟨hscope, heq, -⟩
      exact hname e he hscope.symm heq

theorem Fits.defineAll {env : Env} {names : List Token}
    (hnames : ∀ e ∈ w.inside, e.own = env.own → σ.Spares names) (h : σ.Fits w s) (vs : List Value) :
    σ.Fits w (s.defineAll env names vs) := by
  induction names generalizing s vs with
  | nil => exact h
  | cons t names ih =>
    cases vs with
    | nil => exact h
    | cons v vs =>
      have hfirst : σ.Fits w (s.define env t.lexeme v) :=
        h.bindIn (fun e he hown => hnames e he hown t List.mem_cons_self) v
      exact ih (fun e he hown u hu => hnames e he hown u (.tail t hu)) hfirst vs

/-- When the function is made it is noted where its closure finds the name. -/
theorem Fits.newFunction (h : σ.Fits w s) (name : Token) (params : List Token) (body : List Stmt)
    (closure : Env) :
    σ.Fits (σ.noted w params body s closure) (s.newFunction name params body closure).2 := by
  unfold noted
  split
  · next hnow =>
    have hnone : w.inside = [] := h.unmarked (h.unmade (Nat.le_of_eq hnow.1))
    constructor
    · intro hlater
      exact absurd hlater (hnow.1 ▸ Nat.not_succ_le_self s.functions)
    · exact fun _ => hnone
    · intro closure' scope hhome
      obtain ⟨scope', hholder, heq⟩ := Option.map_eq_some_iff.1 hhome
      cases heq
      exact ⟨List.mem_of_find?_eq_some hholder,
        List.find?_some (p := fun n => (s.valueIn? n σ.name).isSome) hholder⟩
    · intro _ e _ _ he
      exact absurd he (by simp [hnone])
    · intro e he
      exact absurd he (by simp [hnone])
  · exact
      { unmade := fun hlater => h.unmade (Nat.le_of_succ_le hlater)
        unmarked := h.unmarked
        home := h.home
        leads := h.leads
        inside := h.inside }

/-- Code of the function comes to run in a new scope around which it runs, or in one of a call. -/
theorem Fits.mark (h : σ.Fits w s) {env outer : Env} (hchain : env.chain = env.own :: outer.chain)
    (houter : w.home.map Prod.fst = some outer ∨ outer ∈ w.inside) (hlt : env.own < s.scopes.size)
    (hunbound : s.valueIn? env.own σ.name = none) : σ.Fits (w.mark env) s where
  unmade := h.unmade
  unmarked hnone := by
    rcases houter with houter | houter
    · rw [show w.home = none from hnone] at houter
      cases houter
    · rw [h.unmarked hnone] at houter
      cases houter
  home := h.home
  leads {closure e scope} hhome he := by
    rcases List.mem_cons.1 he with rfl | he
    · -- Around the new scope is the closure, or a scope that leads to it.
      have hled : w.LeadsTo closure outer := by
        rcases houter with houter | houter
        · rw [show w.home = some (closure, scope) from hhome] at houter
          cases houter
          exact .refl w closure
        · exact h.leads hhome houter
      exact hled.inner hchain
    · exact (h.leads hhome he).mark env
  inside he := by
    rcases List.mem_cons.1 he with rfl | he
    · exact ⟨hlt, hunbound⟩
    · exact h.inside he

/-- A new scope is marked, and only then are the parameters bound in it. -/
theorem Fits.enter (h : σ.Fits w s) {outer : Env} {names : List Token}
    (houter : w.home.map Prod.fst = some outer ∨ outer ∈ w.inside) (hnames : σ.Spares names)
    (vs : List Value) :
    let inner := (s.openScope outer.chain).1
    σ.Fits (w.mark inner) ((s.openScope outer.chain).2.defineAll inner names vs) := by
  intro inner
  have hlt : inner.own < (s.openScope outer.chain).2.scopes.size := by
    rw [Store.size_openScope]
    exact Nat.lt_succ_self _
  have hunbound : (s.openScope outer.chain).2.valueIn? inner.own σ.name = none := by
    rw [Store.valueIn?_openScope]
    exact Store.valueIn?_of_size_le (Nat.le_refl _) σ.name
  have hmarked : σ.Fits (w.mark inner) (s.openScope outer.chain).2 :=
    (h.openScope outer.chain).mark rfl houter hlt hunbound
  exact hmarked.defineAll (fun _ _ _ => hnames) vs

end Sentinel

namespace Watch

/-- The scope is one in which code of the function runs, or else one that is apart from all of them. -/
def Places (w : Watch) (env : Env) : Bool → Prop
  | true => env ∈ w.inside
  | false => ∀ e ∈ w.inside, e.own ≠ env.own

/-- What can have happened between two moments in one scope: more scopes, and code of the function has
come to run in new ones. -/
structure Grows (w : Watch) (m : Machine) (w' : Watch) (m' : Machine) : Prop where
  scope : m'.scope = m.scope
  size : m.store.scopes.size ≤ m'.store.scopes.size
  kept {e : Env} : e ∈ w.inside → e ∈ w'.inside
  new {e : Env} : e ∈ w'.inside → e ∈ w.inside ∨ m.store.scopes.size ≤ e.own

variable {w w' w'' : Watch} {m m' m'' : Machine}

theorem Grows.refl (w : Watch) (m : Machine) : Grows w m w m := ⟨rfl, Nat.le_refl _, id, .inl⟩

theorem Grows.trans (h : Grows w m w' m') (h' : Grows w' m' w'' m'') : Grows w m w'' m'' where
  scope := h'.scope.trans h.scope
  size := Nat.le_trans h.size h'.size
  kept := h'.kept ∘ h.kept
  new he := by
    rcases h'.new he with he | hsize
    · exact h.new he
    · exact .inr (Nat.le_trans h.size hsize)

/-- What was there before is where it was. -/
theorem Places.grows {env : Env} {c : Bool} (h : w.Places env c) (hgrows : Grows w m w' m')
    (hlt : env.own < m.store.scopes.size) : w'.Places env c := by
  cases c with
  | true => exact hgrows.kept h
  | false =>
    intro e he
    rcases hgrows.new he with he | hsize
    · exact h e he
    · exact Nat.ne_of_gt (Nat.lt_of_lt_of_le hlt hsize)

private theorem Places.decide_eq {env : Env} {c : Bool} (h : w.Places env c) :
    decide (env ∈ w.inside) = c := by
  cases c with
  | true => exact decide_eq_true h
  | false => exact decide_eq_false fun he => h env he rfl

end Watch

namespace Sentinel

variable {α β : Type}

/-- A run under watch does what the run without does, and the notes agree with the machine it leaves. -/
structure Passes (σ : Sentinel) (w : Watch) (m : Machine) (x : Watch × Outcome α) (r : Outcome α) :
    Prop where
  outcome : x.2 = r
  left {m' : Machine} : r.machine? = some m' → σ.Fits x.1 m'.store ∧ w.Grows m x.1 m'

/-- No alarm is raised, wherever the run is started: in a scope in which code of the function runs or in
one that is apart from those. -/
def Quiet (σ : Sentinel) (c : Bool) (x : Watched α) (y : Action α) : Prop :=
  ∀ w m, σ.Fits w m.store → m.scope.own < m.store.scopes.size → w.Places m.scope c →
    σ.Passes w m (x w m) (y m)

variable {σ : Sentinel} {c : Bool} {x : Watched α} {y : Action α} {w : Watch} {m : Machine}

private theorem quiet_pure (a : α) : σ.Quiet c (pure a) (pure a) := by
  intro w m hfits _ _
  refine ⟨rfl, fun hm' => ?_⟩
  cases hm'
  exact ⟨hfits, .refl w m⟩

private theorem quiet_cutOff : σ.Quiet c (Watched.ofAction cutOff) (cutOff : Action α) :=
  fun _ _ _ _ _ => ⟨rfl, fun hm' => by cases hm'⟩

private theorem quiet_raise (token : Token) (fault : RuntimeFault) :
    σ.Quiet c (Watched.ofAction (raise token fault)) (raise token fault : Action α) := by
  intro w m hfits _ _
  refine ⟨rfl, fun hm' => ?_⟩
  cases hm'
  exact ⟨hfits, .refl w m⟩

theorem Quiet.bind (hx : σ.Quiet c x y) {f : α → Watched β} {g : α → Action β}
    (hf : ∀ a, σ.Quiet c (f a) (g a)) : σ.Quiet c (x >>= f) (y >>= g) := by
  intro w m hfits hlt hplaces
  have hfirst := hx w m hfits hlt hplaces
  show σ.Passes w m (Watched.bind x f w m) (Action.bind y g m)
  unfold Watched.bind Action.bind
  generalize x w m = x at hfirst ⊢
  generalize y m = r at hfirst ⊢
  obtain ⟨w', r'⟩ := x
  obtain ⟨rfl, hleft⟩ := hfirst
  cases r' with
  | done a m' =>
    obtain ⟨hfits', hgrows⟩ := hleft rfl
    have hlt' : m'.scope.own < m'.store.scopes.size := by
      rw [hgrows.scope]
      exact Nat.lt_of_lt_of_le hlt hgrows.size
    have hplaces' : w'.Places m'.scope c := hgrows.scope ▸ hplaces.grows hgrows hlt
    obtain ⟨houtcome, hmore⟩ := hf a w' m' hfits' hlt' hplaces'
    refine ⟨houtcome, fun hm'' => ?_⟩
    obtain ⟨hfits'', hgrows'⟩ := hmore hm''
    exact ⟨hfits'', hgrows.trans hgrows'⟩
  | error e m' => exact ⟨rfl, hleft⟩
  | unfinished => exact ⟨rfl, hleft⟩

theorem Passes.after {w' : Watch} {m' : Machine} {x : Watch × Outcome α} {r : Outcome α}
    (h : σ.Passes w' m' x r) (hgrows : w.Grows m w' m') : σ.Passes w m x r := by
  refine ⟨h.outcome, fun hleft => ?_⟩
  obtain ⟨hfits, hmore⟩ := h.left hleft
  exact ⟨hfits, hgrows.trans hmore⟩

/-- What runs in another scope is followed by what runs in this one. -/
theorem Quiet.inScope (h : σ.Quiet c x y) {inner : Env} (hfits : σ.Fits w m.store)
    (hlt : inner.own < m.store.scopes.size) (hplaces : w.Places inner c) :
    σ.Passes w m (Watched.inScope inner x w m) (Action.inScope inner y m) := by
  have hinner := h w { m with scope := inner } hfits hlt hplaces
  obtain ⟨s, o, before⟩ := m
  simp only [Watched.inScope, Action.inScope]
  generalize x w ⟨s, o, inner⟩ = x at hinner ⊢
  generalize y ⟨s, o, inner⟩ = r at hinner ⊢
  obtain ⟨w', r'⟩ := x
  obtain ⟨rfl, hleft⟩ := hinner
  refine ⟨rfl, fun {m'} hm' => ?_⟩
  cases r' with
  | done a left =>
    cases hm'
    obtain ⟨hfits', hgrows⟩ := hleft rfl
    exact ⟨hfits', rfl, hgrows.size, hgrows.kept, hgrows.new⟩
  | error e left =>
    cases hm'
    obtain ⟨hfits', hgrows⟩ := hleft rfl
    exact ⟨hfits', rfl, hgrows.size, hgrows.kept, hgrows.new⟩
  | unfinished => cases hm'

/-- Something is bound where the program is, and nothing else changes. -/
theorem passes_bindIn {w' : Watch} {scope : Nat} {name : String} {v : Value} {s' : Store} {a : α}
    (hfits : σ.Fits w' s') (hinside : w'.inside = w.inside) (hsize : s'.scopes = m.store.scopes)
    (hname : ∀ e ∈ w.inside, e.own = scope → name ≠ σ.name) :
    σ.Passes w m (w', .done a { m with store := s'.bindIn scope name v })
      (.done a { m with store := s'.bindIn scope name v }) := by
  refine ⟨rfl, fun hm' => ?_⟩
  cases hm'
  have hsame : (s'.bindIn scope name v).scopes.size = m.store.scopes.size := by
    rw [Store.size_bindIn, hsize]
  exact ⟨hfits.bindIn (hinside ▸ hname) v, rfl, Nat.le_of_eq hsame.symm, hinside ▸ id,
    fun he => .inl (hinside ▸ he)⟩

/-- The names that code of the function declares. -/
def Allows (σ : Sentinel) (c : Bool) (t : Token) : Prop := c = true → t.lexeme ≠ σ.name

/-- Where the name may be declared it is not in a scope in which code of the function runs. -/
theorem Allows.own_ne {env : Env} {t : Token} (h : σ.Allows c t) (hplaces : w.Places env c) :
    ∀ e ∈ w.inside, e.own = env.own → t.lexeme ≠ σ.name := by
  intro e he hown
  cases c with
  | true => exact h rfl
  | false => exact absurd hown (hplaces e he)

private theorem quiet_define {name : Token} (h : σ.Allows c name) (v : Value) :
    σ.Quiet c ((Instrument.watched σ).define name v) (Instrument.plain.define name v) :=
  fun _ _ hfits _ hplaces => passes_bindIn hfits rfl rfl (h.own_ne hplaces)

private theorem inside_noted (w : Watch) (params : List Token) (body : List Stmt) (s : Store)
    (closure : Env) : (σ.noted w params body s closure).inside = w.inside := by
  unfold noted
  split <;> rfl

private theorem quiet_declare {name : Token} (h : σ.Allows c name) (params : List Token)
    (body : List Stmt) :
    σ.Quiet c ((Instrument.watched σ).declare name params body)
      (Instrument.plain.declare name params body) :=
  fun w m hfits _ hplaces => passes_bindIn (hfits.newFunction name params body m.scope)
    (inside_noted w params body m.store m.scope) rfl (h.own_ne hplaces)

private theorem quiet_print (keyword : Token) (text : String) :
    σ.Quiet c ((Instrument.watched σ).print keyword text) (Instrument.plain.print keyword text) := by
  rintro w ⟨s, o, env⟩ hfits _ _
  refine ⟨rfl, fun {m'} hm' => ?_⟩
  simp only [Instrument.plain, printLine] at hm'
  split at hm' <;> cases hm' <;> exact ⟨hfits, rfl, Nat.le_refl _, id, .inl⟩

/-- A name is found where it is expected. -/
theorem quiet_look (hexpected : σ.expected = Store.homeNow σ.name) (name : Token) :
    σ.Quiet c (σ.look name) (pure ()) := by
  intro w m hfits hlt hplaces
  have hfinds (he : m.scope ∈ w.inside) : σ.Finds w m := by
    intro home hhome
    rw [hexpected]
    exact hfits.holder?_eq hhome he
  have hlook : σ.look name w m = (w, .done () m) := if_neg fun h => h.2.2 (hfinds h.2.1)
  rw [hlook]
  exact quiet_pure () w m hfits hlt hplaces

private theorem quiet_read (hexpected : σ.expected = Store.homeNow σ.name) (name : Token) :
    σ.Quiet c ((Instrument.watched σ).read name) (Instrument.plain.read name) := by
  have hread : σ.Quiet c (Watched.ofAction (Instrument.plain.read name))
      (Instrument.plain.read name) := by
    intro w m hfits _ _
    refine ⟨rfl, fun {m'} hm' => ?_⟩
    obtain rfl : m' = m := by
      simp only [Instrument.plain, bind_apply, Action.scope, Action.read] at hm'
      split at hm' <;> cases hm' <;> rfl
    exact ⟨hfits, .refl w m'⟩
  exact (quiet_look hexpected name).bind fun _ => hread

private theorem quiet_assign (hexpected : σ.expected = Store.homeNow σ.name) (name : Token)
    (v : Value) :
    σ.Quiet c ((Instrument.watched σ).assign name v) (Instrument.plain.assign name v) := by
  have hassign : σ.Quiet c (Watched.ofAction (Instrument.plain.assign name v))
      (Instrument.plain.assign name v) := by
    intro w m hfits hlt hplaces
    simp only [Watched.ofAction, Instrument.plain, bind_apply, Action.scope, Action.assign]
    cases hholder : m.store.holder? m.scope.chain name.lexeme with
    | none => exact quiet_raise name _ w m hfits hlt hplaces
    | some scope =>
      refine passes_bindIn hfits rfl rfl fun e he hown hname => ?_
      -- The scope binds the name that is assigned to, and no scope of the function's code binds it.
      have hbound := List.find?_some (p := fun n => (m.store.valueIn? n name.lexeme).isSome) hholder
      simp [← hown, hname, (hfits.inside he).2] at hbound
  exact (quiet_look hexpected name).bind fun _ => hassign

/-- A new scope is marked if code of the function is to run in it, and then no parameter has the
name. -/
theorem Quiet.inNewScope {outer : Env} {names : List Token} {p : Prop} [Decidable p]
    (h : σ.Quiet (decide p) x y) (hfits : σ.Fits w m.store)
    (houter : p → w.home.map Prod.fst = some outer ∨ outer ∈ w.inside) (hnames : p → σ.Spares names)
    (vs : List Value) :
    let inner := (m.store.openScope outer.chain).1
    let m' := { m with store := (m.store.openScope outer.chain).2.defineAll inner names vs }
    σ.Passes w m (Watched.inScope inner x (if p then w.mark inner else w) m')
      (Action.inScope inner y m') := by
  intro inner m'
  have hsize : m'.store.scopes.size = m.store.scopes.size + 1 := by
    rw [Store.size_defineAll, Store.size_openScope]
  have hapart : ∀ e ∈ w.inside, e.own ≠ inner.own := fun e he => Nat.ne_of_lt (hfits.inside he).1
  by_cases hp : p
  · have hgrows : w.Grows m (w.mark inner) m' := by
      refine ⟨rfl, hsize ▸ Nat.le_succ _, .tail inner, fun he => ?_⟩
      rcases List.mem_cons.1 he with rfl | he
      · exact .inr (Nat.le_refl _)
      · exact .inl he
    have hmarked : σ.Fits (w.mark inner) m'.store := hfits.enter (houter hp) (hnames hp) vs
    rw [if_pos hp]
    rw [decide_eq_true hp] at h
    exact (h.inScope hmarked (hsize ▸ Nat.lt_succ_self _) List.mem_cons_self).after hgrows
  · have hgrows : w.Grows m w m' := ⟨rfl, hsize ▸ Nat.le_succ _, id, .inl⟩
    have hfits' : σ.Fits w m'.store :=
      (hfits.openScope outer.chain).defineAll (fun e he hown => absurd hown (hapart e he)) vs
    rw [if_neg hp]
    rw [decide_eq_false hp] at h
    exact (h.inScope hfits' (hsize ▸ Nat.lt_succ_self _) hapart).after hgrows

/-- A sentinel that expects a name where it is bound by now raises no alarm, whatever is run. -/
theorem relates_watched (hexpected : σ.expected = Store.homeNow σ.name) :
    Instrument.Relates (Instrument.watched σ) Instrument.plain False σ.Allows
      fun c _ _ => σ.Quiet c where
  pure _ a _ := quiet_pure a
  bind hx hf := hx.bind fun a => hf a nofun
  read _ := quiet_read hexpected
  assign _ name v _ := quiet_assign hexpected name v
  define {_ _ v} h _ := quiet_define h v
  declare h _ := quiet_declare (h _ List.mem_cons_self) _ _
  print _ := quiet_print
  raise _ token fault _ := quiet_raise token fault
  cutOff _ := quiet_cutOff
  broken _ _ := quiet_pure Flow.normal
  inBlock {c x y} h := by
    intro w m hfits hlt hplaces
    have hc : decide (m.scope ∈ w.inside) = c := hplaces.decide_eq
    have hblock : σ.Quiet (decide (m.scope ∈ w.inside)) x y := hc.symm ▸ h
    exact hblock.inNewScope hfits .inr (fun _ => List.forall_mem_nil _) []
  inCall {f x y} _ args _ h := by
    intro w m hfits hlt hplaces
    have hcall : σ.Quiet (decide (σ.Follows w f)) x y :=
      h _ fun t ht hc => (of_decide_eq_true hc).1 t ht
    exact hcall.inNewScope hfits (fun h => h.2.imp_left And.right)
      (fun h => (List.forall_mem_append.1 h.1).1) args

end Sentinel

end Scriptlet
