import Scriptlet.Proofs.Session.Visited

namespace Scriptlet

open Scriptlet.Action Evaluation

namespace Session

/-- What is evaluated or executed leaves the scopes alone that cannot be reached from where it starts.
A call starts from the closure of its function and from its arguments. -/
theorem frame_by_reachability :
    (∀ limit m, Visited limit m → ∃ L : Ledger, L.Covers m) ∧
    ∀ (L : Ledger) m, L.Describes m.store → ∀ bound,
      (L.KnowsEnv m.scope →
        (∀ x, (evaluateWith (call bound) x m).Framed L m.store [m.scope] fun v => [v]) ∧
        ∀ s, (executeWith (call bound) bound s m).Framed L m.store [m.scope] fun flow =>
          flow.value?.toList) ∧
      (∀ env ss, L.KnowsEnv env →
        (executeAll bound env ss m).Framed L m.store [env] fun flow => flow.value?.toList) ∧
      ∀ f args, L.Knows f → (∀ v ∈ args, v.FunctionHas L.Knows) →
        (call bound f args m).Framed L m.store (f.closure :: Value.closuresOf args) fun v => [v] := by
  refine ⟨fun limit m hm => hm.exists_covers, fun L m hL bound => ⟨fun hscope => ⟨?_, ?_⟩, ?_, ?_⟩⟩
  · intro x
    exact framed_evaluateWith hL hscope bound x
  · intro s
    exact framed_executeWith hL hscope bound s
  · intro env ss henv
    exact framed_executeAll hL henv bound ss
  · intro f args hf hargs
    exact framed_call hL hf hargs bound

/-- Two functions raise a flag, each in a scope of its own. A call of the first leaves the flag of the
second alone. -/
theorem frame_of_two_flags :
    let up : Token := ⟨.identifier, "up", none, 1⟩
    let body := [Stmt.expression (.assign up (.literal (.bool true)))]
    let opened := (((Store.empty.openScope []).2.openScope [0]).2.openScope [0]).2
    let flags := (opened.bindIn 1 "up" (.bool false)).bindIn 2 "up" (.bool false)
    let first := flags.newFunction up [] body ⟨1, [0]⟩
    let second := first.2.newFunction up [] body ⟨2, [0]⟩
    let m : Machine := ⟨second.2, .empty none, globals⟩
    (∃ L : Ledger, L.Covers (start none)) ∧
      ∃ L : Ledger, L.Describes m.store ∧ L.Knows first.1 ∧ L.Knows second.1 ∧
        ¬m.store.ReachesScope [first.1.closure] 2 ∧
        ∃ m', (call 1 first.1 [] m).machine? = some m' ∧
          (m'.store.valueIn? 1 "up").map Value.truthy = some true ∧
          m'.store.scopes[2]? = m.store.scopes[2]? := by
  intro up body opened flags first second m
  obtain ⟨hvisited, hframed⟩ := frame_by_reachability
  have hopened : Ledger.Describes ⟨[[], [0], [0]], []⟩ opened :=
    ((Ledger.describes_empty.openScope []).openScope [0]).openScope [0]
  have hlowered {p : Function → Prop} : Value.FunctionHas p (.bool false) :=
    .of_ne fun f hf => by cases hf
  have hflags : Ledger.Describes ⟨[[], [0], [0]], []⟩ flags :=
    (hopened.bindIn 1 "up" hlowered).bindIn 2 "up" hlowered
  have hfirst : Ledger.Describes ⟨[[], [0], [0]], [first.1]⟩ first.2 :=
    hflags.newFunction up [] body ⟨1, [0]⟩
  have hsecond : Ledger.Describes ⟨[[], [0], [0]], [first.1, second.1]⟩ m.store :=
    hfirst.newFunction up [] body ⟨2, [0]⟩
  have hclosed : m.store.Closed (· < 2) := by
    have hplain : m.store.EachFunction fun f => f.closure.Within (· < 2) :=
      ((((Store.eachFunction_empty.openScope []).openScope [0]).openScope [0]).bindIn 1 "up"
        hlowered).bindIn 2 "up" hlowered
    exact fun scope name v _ => hplain scope name v
  have hunreached : ¬m.store.ReachesScope [first.1.closure] 2 := by
    intro h
    have hwithin : first.1.closure.Within (· < 2) := (by decide : ∀ n ∈ [1, 0], n < 2)
    exact absurd (hclosed.reachesScope (List.forall_mem_singleton.2 hwithin) h) (Nat.lt_irrefl 2)
  have hcalled : (call 1 first.1 [] m).machine?.map
      (fun m' => (m'.store.valueIn? 1 "up").map Value.truthy) = some (some true) := by
    decide +kernel
  obtain ⟨m', hm', hup⟩ := Option.map_eq_some_iff.1 hcalled
  have hknows : Ledger.Knows ⟨[[], [0], [0]], [first.1, second.1]⟩ first.1 :=
    ⟨rfl, rfl, rfl, trivial⟩
  have hcall := (hframed _ m hsecond 1).2.2 first.1 [] hknows (List.forall_mem_nil _)
  obtain ⟨vs, hvs⟩ := hcall.exists_framed hm'
  exact ⟨hvisited none _ (.between .start), _, hsecond, hknows, ⟨rfl, rfl, rfl, trivial⟩, hunreached,
    m', hm', hup, hvs.untouched 2 (by decide) hunreached⟩

end Session

end Scriptlet
