import Scriptlet.Proofs.Evaluation.Invariant
import Scriptlet.Proofs.Scope.LinkedScopes

namespace Scriptlet

open Scriptlet.Action Evaluation

namespace Expr

/-- No call occurs in the expression. -/
def CallFree : Expr → Prop
  | .literal _ | .name _ | .step _ _ => True
  | .assign _ e | .group e | .unary _ e => CallFree e
  | .binary _ l r | .logical _ l r => CallFree l ∧ CallFree r
  | .call _ _ _ => False

/-- The variable that an expression consists of. -/
def identifier? : Expr → Option String
  | .name t => some t.lexeme
  | _ => none

mutual

/-- The names that occur in the expression as the target of an assignment or of a step operator. -/
def targets : Expr → List String
  | .literal _ | .name _ => []
  | .assign t e => t.lexeme :: targets e
  | .group e => targets e
  | .unary op e => (if op.kind.isStep then e.identifier?.toList else []) ++ targets e
  | .step op t => if op.kind.isStep then [t.lexeme] else []
  | .binary _ l r | .logical _ l r => targets l ++ targets r
  | .call callee _ args => targets callee ++ targetsAll args

def targetsAll : List Expr → List String
  | [] => []
  | e :: es => targets e ++ targetsAll es

end

end Expr

namespace Bindings

private theorem isSome_get?_iff (b : Bindings) (name : String) :
    (b.get? name).isSome = true ↔ name ∈ b.names := by
  obtain ⟨entries⟩ := b
  simp only [get?, names]
  induction entries with
  | nil => simp [ getEntry?]
  | cons e es ih =>
    obtain ⟨n, w⟩ := e
    by_cases h : n = name
    · simp [h, getEntry?]
    · simp [h, Ne.symm h, ih, getEntry?]

/-- A name that is bound keeps its place. -/
theorem names_set_of_mem {b : Bindings} {name : String} (h : name ∈ b.names) (v : Value) :
    (b.set name v).names = b.names := by
  obtain ⟨entries⟩ := b
  simp only [set, names] at h ⊢
  induction entries with
  | nil => cases h
  | cons e es ih =>
    obtain ⟨n, w⟩ := e
    by_cases hn : n = name
    · simp [setEntry, hn]
    · have hrest : name ∈ es.map Prod.fst := by simpa [Ne.symm hn] using h
      simp [setEntry, hn, ih hrest]

end Bindings

namespace Store

/-- The names that each scope binds, in their order. -/
def outline (s : Store) : Array (List String) := s.scopes.map Bindings.names

private theorem isSome_valueIn?_iff (s : Store) (scope : Nat) (name : String) :
    (s.valueIn? scope name).isSome = true ↔ ∃ names, s.outline[scope]? = some names ∧ name ∈ names := by
  rw [valueIn?, outline, Array.getElem?_map]
  cases s.scopes[scope]? with
  | none => simp
  | some b => simp [Bindings.isSome_get?_iff]

/-- Where a name is found depends on the outline alone. -/
theorem holder?_of_outline {s t : Store} (h : t.outline = s.outline) (chain : List Nat)
    (name : String) :
    t.holder? chain name = s.holder? chain name := by
  unfold holder?
  congr 1
  funext scope
  rw [Bool.eq_iff_iff, isSome_valueIn?_iff, isSome_valueIn?_iff, h]

private theorem outline_bindIn {s : Store} {scope : Nat} {name : String}
    (h : (s.valueIn? scope name).isSome)
    (v : Value) : (s.bindIn scope name v).outline = s.outline := by
  unfold outline bindIn
  apply Array.ext_getElem?
  intro n
  rw [Array.getElem?_map, Array.getElem?_map, Array.getElem?_modify]
  by_cases hn : scope = n
  · subst hn
    rw [valueIn?] at h
    cases hb : s.scopes[scope]? with
    | none => simp
    | some b =>
      rw [hb] at h
      simp [Bindings.names_set_of_mem ((b.isSome_get?_iff name).1 h)]
  · rw [if_neg hn]

/-- The store comes from the one before by assignments, all from one environment, to some of the
names. -/
inductive AssignedTo (env : Env) (names : List String) (before : Store) : Store → Prop
  | refl : AssignedTo env names before before
  | assign {s s' : Store} {name : String} {v : Value} : AssignedTo env names before s → name ∈ names →
      s.assign? env name v = some s' → AssignedTo env names before s'

namespace AssignedTo

variable {env : Env} {names : List String} {before s t : Store}

theorem trans (h : AssignedTo env names before s) (h' : AssignedTo env names s t) :
    AssignedTo env names before t := by
  induction h' with
  | refl => exact h
  | assign _ hname hassign ih => exact ih.assign hname hassign

private theorem outline (h : AssignedTo env names before s) : s.outline = before.outline := by
  induction h with
  | refl => rfl
  | assign _ _ hassign ih =>
    obtain ⟨scope, -, hbound, rfl⟩ := exists_of_assign? hassign
    rw [outline_bindIn hbound, ih]

theorem functions (h : AssignedTo env names before s) : s.functions = before.functions := by
  induction h with
  | refl => rfl
  | assign _ _ hassign ih =>
    obtain ⟨scope, -, -, rfl⟩ := exists_of_assign? hassign
    exact ih

/-- A binding whose value is another one is where its name was found from the start. -/
theorem holder? (h : AssignedTo env names before s) {scope : Nat} {name : String}
    (hne : s.valueIn? scope name ≠ before.valueIn? scope name) :
    name ∈ names ∧ before.holder? env.chain name = some scope := by
  induction h with
  | refl => exact absurd rfl hne
  | @assign s s' target v hs htarget hassign ih =>
    by_cases hsame : s'.valueIn? scope name = s.valueIn? scope name
    · exact ih (hsame ▸ hne)
    · unfold assign? at hassign
      split at hassign
      · cases hassign
      · next n hholder =>
        cases hassign
        rw [valueIn?_bindIn] at hsame
        split at hsame
        · next hhere =>
          obtain ⟨rfl, rfl, -⟩ := hhere
          rw [holder?_of_outline hs.outline] at hholder
          exact ⟨htarget, hholder⟩
        · exact absurd rfl hsame

private theorem eq_of_nil (h : AssignedTo env [] before s) : s = before := by
  cases h with
  | refl => rfl
  | assign _ hname _ => cases hname

end AssignedTo

end Store

/-- The machine after differs at most in the values of these names, each in the scope where the name is
found from the current one. -/
structure Machine.ChangesOnly (names : List String) (before after : Machine) : Prop where
  output : after.output = before.output
  scope : after.scope = before.scope
  functions : after.store.functions = before.store.functions
  outline : after.store.outline = before.store.outline
  values : ∀ scope name, after.store.valueIn? scope name ≠ before.store.valueIn? scope name →
    name ∈ names ∧ before.store.holder? before.scope.chain name = some scope
  unchanged : names = [] → after = before

/-- The action ends, and all that it does is to assign to some of the names. -/
def Action.AssignsTo (names : List String) {α : Type} (x : Action α) : Prop :=
  ∀ m, ∃ s, (x m).machine? = some { m with store := s } ∧ m.store.AssignedTo m.scope names s

namespace Action

variable {α β : Type} {names : List String}

private theorem assignsTo_of_still {x : Action α} (h : ∀ m, (x m).machine? = some m) :
    x.AssignsTo names :=
  fun m => ⟨m.store, h m, .refl⟩

private theorem assignsTo_pure (a : α) : (pure a : Action α).AssignsTo names :=
  assignsTo_of_still fun _ => rfl

private theorem assignsTo_raise (token : Token) (fault : RuntimeFault) :
    (raise token fault : Action α).AssignsTo names :=
  assignsTo_of_still fun _ => rfl

/-- What the second action does is done on the machine that the first one leaves. -/
theorem AssignsTo.bind {x : Action α} {f : α → Action β} (hx : x.AssignsTo names)
    (hf : ∀ a, (f a).AssignsTo names) : (x >>= f).AssignsTo names := by
  intro m
  obtain ⟨s, hm, hs⟩ := hx m
  rw [bind_apply]
  cases h : x m with
  | unfinished =>
    rw [h] at hm
    cases hm
  | error e m' =>
    rw [h] at hm
    exact ⟨s, hm, hs⟩
  | done a m' =>
    rw [h] at hm
    obtain rfl := Option.some.inj hm
    obtain ⟨t, ht, hst⟩ := hf a { m with store := s }
    exact ⟨t, ht, hs.trans hst⟩

private theorem assignsTo_read (name : Token) :
    (scope >>= fun env => read env name).AssignsTo names := by
  apply assignsTo_of_still
  intro m
  rcases m.read_assign m.scope name with ⟨n, old, -, -, hread, -⟩ | ⟨-, hread, -⟩
  · simp only [bind_apply, scope, hread, Outcome.machine?]
  · simp only [bind_apply, scope, hread, Outcome.machine?]

private theorem assignsTo_assign {name : Token} (h : name.lexeme ∈ names) (v : Value) :
    (scope >>= fun env => assign env name v).AssignsTo names := by
  intro m
  simp only [bind_apply, scope, assign_apply]
  cases hassign : m.store.assign? m.scope name.lexeme v with
  | none => exact ⟨m.store, rfl, .refl⟩
  | some s => exact ⟨s, rfl, .assign .refl h hassign⟩

end Action

namespace Evaluation

/-- A step fails with the machine as it is, or it changes the binding that it has read. -/
theorem step_apply (env : Env) (op name : Token) (m : Machine) :
    step env op name m =
      match Operator.stepSize? op.kind, m.store.holder? env.chain name.lexeme with
      | none, _ => .error ⟨op, .invalidOperator op.lexeme⟩ m
      | some _, none => .error ⟨name, .undefinedVariable name.lexeme⟩ m
      | some size, some n =>
        match (m.store.valueIn? n name.lexeme).bind Value.number? with
        | none => .error ⟨op, .operandNotNumber⟩ m
        | some old => .done (old, old + size)
            { m with store := m.store.bindIn n name.lexeme (.number (old + size)) } := by
  unfold step
  cases Operator.stepSize? op.kind with
  | none => rfl
  | some size =>
    dsimp only
    rcases m.read_assign env name with ⟨n, old, hholder, hold, hread, hassign⟩ | ⟨hholder, hread, -⟩
    · rw [bind_apply, hread, hholder]
      dsimp only
      rw [hold, Option.bind_some]
      cases old.number? with
      | none => rfl
      | some x =>
        dsimp only
        rw [bind_apply, hassign]
        rfl
    · rw [bind_apply, hread, hholder]

private theorem eq_of_error_step {env : Env} {op name : Token} {m m' : Machine} {e : RuntimeError}
    (h : step env op name m = .error e m') : m' = m := by
  rw [step_apply] at h
  split at h
  · exact (Outcome.error.inj h).2.symm
  · exact (Outcome.error.inj h).2.symm
  · split at h
    · exact (Outcome.error.inj h).2.symm
    · cases h

/-- What a step is evaluated for does not matter. -/
theorem eq_of_error_stepping {op name : Token} {f : Float × Float → Value} {m m' : Machine}
    {e : RuntimeError}
    (h : (Action.scope >>= fun env => step env op name >>= fun r => pure (f r)) m = .error e m') :
    m' = m := by
  simp only [bind_apply, Action.scope] at h
  cases hstep : step m.scope op name m with
  | done r n =>
    rw [hstep] at h
    cases h
  | error err n =>
    rw [hstep] at h
    cases h
    exact eq_of_error_step hstep
  | unfinished =>
    rw [hstep] at h
    cases h

private theorem assignsTo_step {names : List String} {op name : Token}
    (h : op.kind.isStep = true → name.lexeme ∈ names) :
    (Action.scope >>= fun env => step env op name).AssignsTo names := by
  intro m
  simp only [bind_apply, Action.scope, step_apply]
  split
  · exact ⟨m.store, rfl, .refl⟩
  · exact ⟨m.store, rfl, .refl⟩
  · next size n hsize hholder =>
    split
    · exact ⟨m.store, rfl, .refl⟩
    · next old hold =>
      have hstep : op.kind.isStep = true := by
        rw [← Operator.isSome_stepSize?, hsize]
        rfl
      have hassign : m.store.assign? m.scope name.lexeme (.number (old + size)) =
          some (m.store.bindIn n name.lexeme (.number (old + size))) := by
        rw [Store.assign?, hholder]
      exact ⟨_, rfl, .assign .refl (h hstep) hassign⟩

private theorem assignsTo_apply {names : List String} (op : Token)
    (result : Except RuntimeFault Value) :
    (apply op result).AssignsTo names := by
  cases result with
  | ok v => exact assignsTo_pure v
  | error fault => exact assignsTo_raise op fault

variable {names : List String}

private theorem assignsTo_unary {calls : Calls} {e : Expr} (op : Token)
    (htarget : op.kind.isStep = true → ∀ x ∈ e.identifier?, x ∈ names)
    (he : (evaluateWith calls e).AssignsTo names) :
    (evaluateWith calls (.unary op e)).AssignsTo names := by
  simp only [evaluateWith]
  split
  · next hop =>
    split
    · next t =>
      have ht : t.lexeme ∈ names := htarget hop t.lexeme rfl
      have hstep : (Action.scope >>= fun env => step env op t).AssignsTo names :=
        assignsTo_step fun _ => ht
      exact hstep.bind fun r => assignsTo_pure _
    · exact assignsTo_raise op _
  · split
    · exact he.bind fun v => assignsTo_apply op _
    · exact assignsTo_raise op _

/-- Whatever calls would do: there are none. -/
theorem assignsTo_evaluateWith (calls : Calls) : (e : Expr) → e.CallFree → e.targets ⊆ names →
    (evaluateWith calls e).AssignsTo names
  | .literal l, _, _ => assignsTo_pure _
  | .name t, _, _ => assignsTo_read t
  | .assign t e, h, hnames => by
    obtain ⟨ht, hrest⟩ := List.cons_subset.1 hnames
    simp only [evaluateWith]
    apply (assignsTo_evaluateWith calls e h hrest).bind
    intro v
    rw [← bind_assoc]
    exact (assignsTo_assign ht v).bind fun _ => assignsTo_pure v
  | .group e, h, hnames => assignsTo_evaluateWith calls e h hnames
  | .unary op e, h, hnames => by
    obtain ⟨htarget, hoperand⟩ := List.append_subset.1 hnames
    apply assignsTo_unary op _ (assignsTo_evaluateWith calls e h hoperand)
    intro hop x hx
    rw [if_pos hop] at htarget
    exact htarget (Option.mem_toList.2 hx)
  | .step op t, _, hnames => by
    have hstep : (Action.scope >>= fun env => step env op t).AssignsTo names :=
      assignsTo_step fun hop => hnames (by simp [Expr.targets, hop])
    exact hstep.bind fun r => assignsTo_pure _
  | .binary op l r, h, hnames => by
    obtain ⟨hl, hr⟩ := List.append_subset.1 hnames
    apply (assignsTo_evaluateWith calls l h.1 hl).bind
    intro v
    apply (assignsTo_evaluateWith calls r h.2 hr).bind
    intro w
    exact assignsTo_apply op _
  | .logical op l r, h, hnames => by
    obtain ⟨hl, hr⟩ := List.append_subset.1 hnames
    simp only [evaluateWith]
    apply (assignsTo_evaluateWith calls l h.1 hl).bind
    intro v
    split
    · exact assignsTo_pure v
    · exact assignsTo_evaluateWith calls r h.2 hr
  | .call _ _ _, h, _ => h.elim

private theorem changesOnly_of_assignedTo {m : Machine} {names : List String} {s : Store}
    (h : m.store.AssignedTo m.scope names s) : m.ChangesOnly names { m with store := s } where
  output := rfl
  scope := rfl
  functions := h.functions
  outline := h.outline
  values scope name hne := h.holder? hne
  unchanged hnames := by
    subst hnames
    rw [h.eq_of_nil]

/-- An expression without calls comes to an end and changes only the bindings in which its targets are
found. A step that fails changes nothing. -/
theorem call_free_changes_targets :
    (∀ calls e, e.CallFree → ∀ m, ∃ m', (evaluateWith calls e m).machine? = some m' ∧
      m.ChangesOnly e.targets m') ∧
    (∀ calls op t m err m', evaluateWith calls (.step op t) m = .error err m' → m' = m) ∧
    (∀ calls op e, op.kind.isStep = true → ∀ m err m',
      evaluateWith calls (.unary op e) m = .error err m' → m' = m) ∧
    ∀ env name v m m', Action.read env name m = .done v m' → m' = m ∧
      ∃ n, m.store.holder? env.chain name.lexeme = some n ∧
        ∀ w, Action.assign env name w m =
          .done () { m with store := m.store.bindIn n name.lexeme w } := by
  refine ⟨?_, ?_, ?_, ?_⟩
  · intro calls e he m
    obtain ⟨s, hm, hs⟩ := assignsTo_evaluateWith calls e he (List.Subset.refl _) m
    exact ⟨_, hm, changesOnly_of_assignedTo hs⟩
  · intro calls op t m err m' h
    exact eq_of_error_stepping h
  · intro calls op e hop m err m' h
    simp only [evaluateWith, hop, if_true] at h
    split at h
    · exact eq_of_error_stepping h
    · exact (Outcome.error.inj h).2.symm
  · intro env name v m m' h
    rcases m.read_assign env name with ⟨n, old, hholder, -, hread, hassign⟩ | ⟨-, hread, -⟩
    · rw [hread] at h
      exact ⟨(Outcome.done.inj h).2.symm, n, hholder, hassign⟩
    · rw [hread] at h
      cases h

/-- In `x++ + (y = ++z)` the inner one of two `x` is changed, then there is no `z` and so no
assignment to `y`. -/
theorem call_free_changes_nearest :
    let op (kind : TokenKind) (lexeme : String) : Token := ⟨kind, lexeme, none, 1⟩
    let outer := (((Store.empty.openScope []).2.bindIn 0 "x" (.number 1)).bindIn 0 "y" (.number 2))
    let m : Machine := ⟨(outer.openScope [0]).2.bindIn 1 "x" (.number 3), .empty none, ⟨1, [0]⟩⟩
    let before := Expr.unary (op .plusPlus "++") (.name (.named "z" 1))
    let behind := Expr.step (op .plusPlus "++") (.named "z" 1)
    let e := Expr.binary (op .plus "+") (.step (op .plusPlus "++") (.named "x" 1))
      (.assign (.named "y" 1) before)
    e.CallFree ∧ e.targets = ["x", "y", "z"] ∧
      (∃ m', (evaluateWith (call 0) e m).machine? = some m' ∧ m.ChangesOnly ["x", "y", "z"] m' ∧
        ((m'.store.valueIn? 1 "x").bind Value.number?).map Float.toBits = some (4 : Float).toBits ∧
        m'.store.valueIn? 0 "x" = m.store.valueIn? 0 "x") ∧
      (∃ err, evaluateWith (call 0) before m = .error err m) ∧
      (∃ err, evaluateWith (call 0) behind m = .error err m) ∧
      ∀ w, Action.assign m.scope (.named "x" 1) w m =
        .done () { m with store := m.store.bindIn 1 "x" w } := by
  intro op outer m before behind e
  obtain ⟨hcallFree, hbehind, hbefore, hread⟩ := call_free_changes_targets
  have hfree : e.CallFree := ⟨trivial, trivial⟩
  have htargets : e.targets = ["x", "y", "z"] := by decide
  have hfound : m.store.holder? m.scope.chain "x" = some 1 := by decide +kernel
  refine ⟨hfree, htargets, ?_, ?_, ?_, ?_⟩
  · obtain ⟨m', hm', hchanges⟩ := hcallFree (call 0) e hfree m
    rw [htargets] at hchanges
    have hx : ((evaluateWith (call 0) e m).machine?.bind fun m' =>
        (m'.store.valueIn? 1 "x").bind Value.number?).map Float.toBits = some (4 : Float).toBits := by
      decide +kernel
    rw [hm'] at hx
    refine ⟨m', hm', hchanges, hx, ?_⟩
    by_contra hne
    obtain ⟨-, hholder⟩ := hchanges.values 0 "x" hne
    rw [hfound] at hholder
    cases hholder
  · obtain ⟨err, m', h⟩ : ∃ err m', evaluateWith (call 0) before m = .error err m' := ⟨_, _, rfl⟩
    obtain rfl := hbefore (call 0) _ _ rfl m err m' h
    exact ⟨err, h⟩
  · obtain ⟨err, m', h⟩ : ∃ err m', evaluateWith (call 0) behind m = .error err m' := ⟨_, _, rfl⟩
    obtain rfl := hbehind (call 0) _ _ m err m' h
    exact ⟨err, h⟩
  · obtain ⟨v, m', h⟩ : ∃ v m', Action.read m.scope (.named "x" 1) m = .done v m' := ⟨_, _, rfl⟩
    obtain ⟨-, n, hholder, hassign⟩ := hread m.scope (.named "x" 1) v m m' h
    rw [show m.store.holder? m.scope.chain (Token.named "x" 1).lexeme = some 1 from hfound] at hholder
    cases hholder
    exact hassign

end Evaluation

end Scriptlet
