import Scriptlet.Proofs.Evaluation.Coupling
import Scriptlet.Proofs.Scope.Matching

namespace Scriptlet

open Scriptlet.Action Evaluation

/-- The outputs have no limit, and since the given ones the same bytes were written to both. -/
structure Output.GrownAlike (before before' o o' : Output) : Prop where
  unlimited : o.limit = none
  unlimited' : o'.limit = none
  added : ∃ bytes, o.written = before.written ++ bytes ∧ o'.written = before'.written ++ bytes

namespace Output

variable {before before' o o' : Output}

private theorem write_unlimited (h : o.limit = none) (text : String) :
    o.write text = ({ o with written := o.written ++ text.toUTF8 }, true) := by
  rw [write, h]

theorem GrownAlike.refl (h : before.limit = none) (h' : before'.limit = none) :
    GrownAlike before before' before before' :=
  ⟨h, h', .empty, by simp, by simp⟩

theorem GrownAlike.write (h : GrownAlike before before' o o') (text : String) :
    GrownAlike before before' (o.write text).1 (o'.write text).1 ∧
      (o.write text).2 = (o'.write text).2 ∧
      ((o.write text).2 = false → (o.write text).1.refusal = (o'.write text).1.refusal) := by
  obtain ⟨bytes, hbytes, hbytes'⟩ := h.added
  rw [write_unlimited h.unlimited, write_unlimited h.unlimited']
  refine ⟨⟨h.unlimited, h.unlimited', bytes ++ text.toUTF8, ?_, ?_⟩, rfl, nofun⟩
  · rw [hbytes, ByteArray.append_assoc]
  · rw [hbytes', ByteArray.append_assoc]

end Output

namespace Matching

/-- What runs on stores that agree on all scopes of one kind keeps them in agreement there. -/
def coupling (p : Nat → Prop) (before before' : Output) : Coupling Matching where
  env w := w.EnvsWithin p
  binds w := w.EnvsWithin p
  function w := w.FunctionsWithin p
  store w := w.AgreeWithin p
  output := Output.GrownAlike before before'
  env_mono hu := And.imp_left (·.mono hu)
  binds_mono hu := And.imp_left (·.mono hu)
  function_mono hu hf := hf.mono hu
  env_of_binds := id
  code_eq hf := ⟨hf.1.name, hf.1.params, hf.1.body⟩
  env_closure hf := ⟨hf.1.closure, hf.2⟩
  identity_iff {w _ _ _ _} hf hg := Relator.rel_eq w.functions_unique hf.1.identity hg.1.identity
  store_get? name hs he := hs.get? he name
  store_assign? name hs he hv := hs.assign? he name hv
  store_define name hs he hv := hs.bindIn he.1.own name hv
  store_openScope hs he := hs.openScope he
  store_newFunction name params body hs he := hs.newFunction name params body he
  output_write text ho := ho.write text

variable {w : Matching}

/-- Neither call comes to an end, both end with the same error, or both with corresponding values.
Both write the same, and what is reached from their `roots` and values agrees. -/
inductive CallsAlike (w : Matching) (roots roots' : List Env) (before before' : Output) :
    Outcome Value → Outcome Value → Prop where
  | done {u : Matching} {v v' : Value} {m m' : Machine} : w ≤ u → u.Values v v' →
    u.Agree (roots ++ v.closures) m.store m'.store →
    u.symm.Agree (roots' ++ v'.closures) m'.store m.store →
    Output.GrownAlike before before' m.output m'.output →
    CallsAlike w roots roots' before before' (.done v m) (.done v' m')
  | error {u : Matching} {m m' : Machine} (e : RuntimeError) : w ≤ u →
    u.Agree roots m.store m'.store → u.symm.Agree roots' m'.store m.store →
    Output.GrownAlike before before' m.output m'.output →
    CallsAlike w roots roots' before before' (.error e m) (.error e m')
  | unfinished : CallsAlike w roots roots' before before' .unfinished .unfinished

private theorem callsAlike_of_outcomes {p : Nat → Prop} {roots roots' : List Env}
    {before before' : Output}
    {e e' : Env} {r r' : Outcome Value} (hroots : List.Forall₂ w.Envs roots roots')
    (hwithin : ∀ e ∈ roots, e.Within p)
    (h : (coupling p before before').Outcomes e e' (coupling p before before').values w r r') :
    w.CallsAlike roots roots' before before' r r' := by
  cases h with
  | unfinished => exact .unfinished
  | error err hu hs ho =>
    have hroots := hroots.imp fun _ _ henvs => henvs.mono hu
    have hagree := AgreeWithin.agree hs hroots hwithin
    exact .error err hu hagree (hagree.symm hroots) ho
  | @done u v v' s s' o o' hu hv hs ho =>
    have hvalues : u.Values v v' := hv.mono fun _ _ => And.left
    have hclosures : ∀ e ∈ v.closures, e.Within p := by
      cases hv with
      | function hf => exact List.forall_mem_singleton.2 hf.2
      | _ => exact List.forall_mem_nil _
    have hmore : List.Forall₂ u.Envs (roots ++ v.closures) (roots' ++ v'.closures) :=
      List.rel_append (hroots.imp fun _ _ henvs => henvs.mono hu) (envs_closures hvalues)
    have hagree := AgreeWithin.agree hs hmore (List.forall_mem_append.2 ⟨hwithin, hclosures⟩)
    exact .done hu hvalues hagree (hagree.symm hmore) ho

end Matching

namespace Evaluation

open Matching

variable {w : Matching} {f f' : Function} {args args' : List Value} {m m' : Machine}

/-- A call depends on nothing but its function, its arguments and what these lead to: not on the scope
in which it is made, and not on any scope that they do not lead to. -/
theorem call_ignores_caller (hf : w.Functions f f') (hargs : List.Forall₂ w.Values args args')
    (hstores : w.Agree (f.closure :: Value.closuresOf args) m.store m'.store)
    (hunlimited : m.output.limit = none) (hunlimited' : m'.output.limit = none) (bound : Nat) :
    w.CallsAlike (f.closure :: Value.closuresOf args) (f'.closure :: Value.closuresOf args')
      m.output m'.output (call bound f args m) (call bound f' args' m') := by
  let p := m.store.Territory (f.closure :: Value.closuresOf args)
  have hroots : List.Forall₂ w.Envs (f.closure :: Value.closuresOf args)
      (f'.closure :: Value.closuresOf args') := .cons hf.closure (envs_closuresOf hargs)
  have hwithin : ∀ e ∈ f.closure :: Value.closuresOf args, e.Within p := fun e he =>
    (Store.Reaches.root he).within_territory
  have hclosures : ∀ v ∈ args, v.FunctionHas fun g => g.closure.Within p :=
    Value.forall_mem_closuresOf.1 fun e he => hwithin e (.tail _ he)
  have hvalues : List.Forall₂ (Value.Related (w.FunctionsWithin p)) args args' :=
    ((List.forall₂_and_left _ _).2 ⟨hclosures, hargs⟩).imp fun _ _ hv => hv.2.and hv.1
  have hcalls := (coupling p m.output m'.output).call bound w f f' args args'
    ⟨hf, hwithin _ List.mem_cons_self⟩ hvalues m.scope m'.scope
  exact callsAlike_of_outcomes hroots hwithin
    (hcalls w le_rfl _ _ _ _ hstores.within (.refl hunlimited hunlimited'))

/-- In the second store the function was declared in another scope, and the call is made where the
variable that it returns has another value. -/
theorem call_ignores_other_variable :
    let seen : Token := ⟨.identifier, "seen", none, 1⟩
    let body := [Stmt.ret seen (some (.name seen))]
    let s := (Store.empty.openScope []).2.bindIn 0 "seen" (.bool true)
    let s' := (((Store.empty.openScope []).2.openScope []).2.bindIn 0 "seen" (.bool false)).bindIn 1
      "seen" (.bool true)
    let f : Function := ⟨0, seen, [], body, ⟨0, []⟩⟩
    let f' : Function := ⟨1, seen, [], body, ⟨1, []⟩⟩
    let m : Machine := ⟨{ s with functions := 1 }, .empty none, ⟨0, []⟩⟩
    let m' : Machine := ⟨{ s' with functions := 2 }, .empty none, ⟨0, []⟩⟩
    (∃ last, call 1 f [] m = .done (.bool true) last) ∧
      ∃ w : Matching, w.Functions f f' ∧ w.Agree [f.closure] m.store m'.store ∧
        w.CallsAlike [f.closure] [f'.closure] m.output m'.output (call 1 f [] m) (call 1 f' [] m') := by
  intro seen body s s' f f' m m'
  let w : Matching :=
    { scopes := fun n n' => n = 0 ∧ n' = 1
      functions := fun i i' => i = 0 ∧ i' = 1
      scopes_unique := ⟨fun _ _ _ h h' => h.1.trans h'.1.symm, fun _ _ _ h h' => h.2.trans h'.2.symm⟩
      functions_unique :=
        ⟨fun _ _ _ h h' => h.1.trans h'.1.symm, fun _ _ _ h h' => h.2.trans h'.2.symm⟩ }
  have hf : w.Functions f f' := ⟨⟨rfl, rfl⟩, rfl, rfl, rfl, .cons ⟨rfl, rfl⟩ .nil⟩
  have hagree : w.Agree [f.closure] m.store m'.store := by
    constructor
    · constructor
      · rintro n n' ⟨rfl, rfl⟩
        decide
      · rintro i i' ⟨rfl, rfl⟩
        decide
    · intro n hn
      have hplain : m.store.EachFunction fun g => g.closure.Within (· = 0) :=
        (Store.eachFunction_empty.openScope []).bindIn 0 "seen" (.of_ne fun g hg => by cases hg)
      have hclosed : m.store.Closed (· = 0) := fun scope name v _ => hplain scope name v
      have hwithin : f.closure.Within (· = 0) := fun k hk => List.mem_singleton.1 hk
      obtain rfl : n = 0 := hclosed.reachesScope (List.forall_mem_singleton.2 hwithin) hn
      refine ⟨1, ⟨rfl, rfl⟩, fun name => ?_⟩
      have hempty (k : Nat) : Store.empty.valueIn? k name = none :=
        Store.valueIn?_of_size_le (Nat.zero_le k) name
      have hleft : s.valueIn? 0 name = if "seen" = name then some (.bool true) else none := by
        simp [s, Store.valueIn?_bindIn, Store.valueIn?_openScope, hempty]
      have hright : s'.valueIn? 1 name = if "seen" = name then some (.bool true) else none := by
        simp [s', Store.valueIn?_bindIn, Store.valueIn?_openScope, hempty]
      show Option.Rel w.Values (s.valueIn? 0 name) (s'.valueIn? 1 name)
      rw [hleft, hright]
      split
      · exact .some (.bool true)
      · exact .none
  refine ⟨⟨_, rfl⟩, w, hf, hagree, ?_⟩
  exact call_ignores_caller hf .nil hagree rfl rfl 1

end Evaluation

end Scriptlet
