import Scriptlet.Proofs.Evaluation.ForLoop
import Scriptlet.Proofs.Grammar.SentenceSound
import Scriptlet.Proofs.Session.Declarations

namespace Scriptlet

open Scriptlet.Action Evaluation

/-- The current scope, the scopes around it and those of all closures are there. -/
structure Machine.Intact (m : Machine) : Prop where
  store : Padding.Closes m.store
  scope : m.scope.Within (· < m.store.scopes.size)

namespace Ledger

variable {L : Ledger} {m : Machine}

theorem KnowsChain.lt_length {chain : List Nat} (h : L.KnowsChain chain) :
    ∀ n ∈ chain, n < L.links.length := by
  induction chain with
  | nil => exact List.forall_mem_nil _
  | cons scope outer ih =>
    exact List.forall_mem_cons.2 ⟨(List.getElem?_eq_some_iff.1 h.1).1, ih h.2⟩

theorem KnowsEnv.within {e : Env} (h : L.KnowsEnv e) : e.Within (· < L.links.length) :=
  KnowsChain.lt_length h

private theorem Covers.intact (h : L.Covers m) : m.Intact where
  store scope name v hv f hf := by
    rw [← h.store.scopes]
    exact (h.store.bound scope name v hv f hf).2.within
  scope := by
    rw [← h.store.scopes]
    exact h.scope.within

end Ledger

namespace Padding

/-- Two machines that look the same from the scopes that were there before: each of them binds the same
names, to values that are the same but for hollow scopes of closures. -/
structure Leaves (u : Padding) (before m m' : Machine) : Prop where
  grown : same before.store.scopes.size ≤ u
  agree : u.Agree m.store m'.store
  bindings : ∀ n < before.store.scopes.size, ∀ name,
    Option.Rel u.Values (m.store.valueIn? n name) (m'.store.valueIn? n name)
  output : m.output = m'.output
  scope : m.scope = before.scope
  scope' : m'.scope = before.scope

/-- How two runs correspond: neither comes to an end, both end with the same error, or both end with
flows that correspond. -/
inductive RunsAlike (before : Machine) : Outcome Flow → Outcome Flow → Prop where
  | done {u : Padding} {flow flow' : Flow} {m m' : Machine} : flow.Related u.Functions flow' →
    u.Leaves before m m' → RunsAlike before (.done flow m) (.done flow' m')
  | error {u : Padding} {m m' : Machine} (e : RuntimeError) : u.Leaves before m m' →
    RunsAlike before (.error e m) (.error e m')
  | unfinished : RunsAlike before .unfinished .unfinished

private theorem leaves_of_agree {before : Machine} {u : Padding} {s s' : Store} {o : Output}
    (hgrown : same before.store.scopes.size ≤ u) (hagree : u.Agree s s') :
    u.Leaves before ⟨s, o, before.scope⟩ ⟨s', o, before.scope⟩ where
  grown := hgrown
  agree := hagree
  bindings n hn := hagree.bindings n n (hgrown.scopes ⟨rfl, hn⟩)
  output := rfl
  scope := rfl
  scope' := rfl

theorem RunsAlike.of_couples {m : Machine} (hm : m.Intact) {x y : Action Flow}
    (h : coupling.Couples (same m.store.scopes.size) m.scope m.scope coupling.flows x y) :
    RunsAlike m (x m) (y m) := by
  have houtcomes : coupling.Outcomes m.scope m.scope coupling.flows (same m.store.scopes.size)
      (x m) (y m) := h _ le_rfl m.store m.store m.output m.output (agree_same hm.store) rfl
  generalize x m = r at houtcomes ⊢
  generalize y m = r' at houtcomes ⊢
  cases houtcomes with
  | done hu hflow hs ho =>
    cases ho
    exact .done hflow (leaves_of_agree hu hs)
  | error e hu hs ho =>
    cases ho
    exact .error e (leaves_of_agree hu hs)
  | unfinished => exact .unfinished

end Padding

namespace Grammar

/-- A `for` that was read is the tree of its clauses, and its body is no declaration. -/
theorem exists_forRead {s : Setting} {semicolon kw : Token} (hsemi : semicolon.kind = .semicolon)
    (hkw : kw.kind = .kwFor) {ts us : List Token} {st : Stmt}
    (h : statement s (kw :: ts) = .done st us []) :
    ∃ init c increment body, ForRead s semicolon ts us init c increment body ∧
      body.exposedDeclarations = [] ∧ st = forBlock init c increment body := by
  simp only [statement_cons, hkw] at h
  obtain ⟨clauses, rest, hclauses, h⟩ := Reply.bind_eq_done_iff.1 h
  obtain ⟨body, hread, rfl⟩ := Reply.map_eq_done_iff.1 h
  obtain ⟨c, hc, hfor⟩ := for_sound hsemi (sentencesSoundBelow hsemi (ts.length + 1))
    (Nat.lt_succ_self _) hclauses hread
  have hbody := yields_undeclaring s rest
  rw [hread] at hbody
  exact ⟨clauses.init, c, clauses.increment, body, hfor, hbody.1, clauses.around_eq hc body⟩

private theorem ForRead.exists_initialClause {s : Setting} {semicolon : Token} {ts us : List Token}
    {init : Option Stmt} {c increment : Option Expr} {body : Stmt}
    (h : ForRead s semicolon ts us init c increment body) : ∃ is, InitialClause is init := by
  obtain ⟨_, is, _, _, _, _, _, _, _, _, _, _, hinit, _⟩ := h
  exact ⟨is, hinit⟩

end Grammar

namespace Session

open Padding

/-- On every machine that a session visits, a `for` does what the loop of its clauses does, and the
names that its body declares are not seen by the increment. -/
theorem for_means_its_clauses :
    (∀ limit m, Visited limit m → m.Intact) ∧
    ∀ (s : Grammar.Setting) (kw semicolon : Token) ts us st, kw.kind = .kwFor →
      semicolon.kind = .semicolon → Grammar.statement s (kw :: ts) = .done st us [] →
      ∃ init c increment body, Grammar.ForRead s semicolon ts us init c increment body ∧
        ∀ bound m, m.Intact →
          RunsAlike m (executeWith (call bound) bound st m)
            (forLoop (call bound) bound init c increment body m) ∧
          (executeWith (call bound) bound st m).KeepsNames m.store ∧
          ∀ m', (executeWith (call bound) bound body m').KeepsNames m'.store := by
  refine ⟨fun limit m hm => ?_, ?_⟩
  · obtain ⟨L, hL⟩ := hm.exists_covers
    exact hL.intact
  · intro s kw semicolon ts us st hkw hsemi hst
    obtain ⟨init, c, increment, body, hfor, hbody, rfl⟩ := Grammar.exists_forRead hsemi hkw hst
    obtain ⟨is, hinit⟩ := hfor.exists_initialClause
    refine ⟨init, c, increment, body, hfor, fun bound m hm => ⟨?_, ?_, ?_⟩⟩
    · have hscope : (same m.store.scopes.size).Envs m.scope m.scope := chains_same hm.scope
      exact .of_couples hm (couples_forLoop (coupling.call bound) hscope hinit hbody c increment)
    · exact keepsNames_executeWith bound rfl m
    · exact keepsNames_executeWith bound hbody

/-- The body declares a variable of the same name as the one of the loop; the increment changes the one
of the loop. -/
theorem for_increments_its_own_variable :
    let source := "for (var go = true; go; go = false) \x7b var go = \"inner\"; print go; \x7d"
    let semicolon : Token := ⟨.semicolon, ";", none, 1⟩
    (start none).Intact ∧
      ∃ kw ts st init c increment body m, Grammar.input (Scan.ofText source).tokens = kw :: ts ∧
        kw.kind = .kwFor ∧ Grammar.statement ⟨1, false⟩ (kw :: ts) = .done st [] [] ∧
        Grammar.ForRead ⟨1, false⟩ semicolon ts [] init c increment body ∧
        forLoop (call 2) 2 init c increment body (start none) = .done .normal m ∧
        m.output.written = "inner\n".toUTF8 := by
  intro source semicolon
  obtain ⟨hintact, hmeans⟩ := for_means_its_clauses
  have hstart : (start none).Intact := hintact none _ (.between .start)
  have hrun : ((Grammar.input (Scan.ofText source).tokens).head?.map Token.kind,
      match Grammar.statement ⟨1, false⟩ (Grammar.input (Scan.ofText source).tokens) with
      | .done st [] [] =>
        match executeWith (call 2) 2 st (start none) with
        | .done .normal m => some m.output.written
        | _ => none
      | _ => none) = (some .kwFor, some "inner\n".toUTF8) := by decide +kernel
  obtain ⟨hhead, hrun⟩ := Prod.mk.inj hrun
  cases htokens : Grammar.input (Scan.ofText source).tokens with
  | nil =>
    rw [htokens] at hhead
    cases hhead
  | cons kw ts =>
    rw [htokens] at hhead hrun
    have hkw : kw.kind = .kwFor := Option.some.inj hhead
    split at hrun
    · next st hst =>
      obtain ⟨init, c, increment, body, hfor, halike⟩ :=
        hmeans ⟨1, false⟩ kw semicolon ts [] st hkw rfl hst
      have hruns := (halike 2 (start none) hstart).1
      split at hrun
      · next m hm =>
        rw [hm] at hruns
        generalize hloop : forLoop (call 2) 2 init c increment body (start none) = r at hruns
        cases hruns with
        | done hflow hleaves =>
          cases hflow
          exact ⟨hstart, kw, ts, st, init, c, increment, body, _, rfl, hkw, hst, hfor, hloop,
            hleaves.output ▸ Option.some.inj hrun⟩
      · cases hrun
    · cases hrun

end Session

end Scriptlet
