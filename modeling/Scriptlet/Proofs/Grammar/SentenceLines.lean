import Scriptlet.Proofs.Grammar.SentenceSound
import Scriptlet.Proofs.Renumber

namespace Scriptlet.Grammar

variable (g : Nat → Nat)

theorem Listed.renumber {parts : List (List Token)} {ts : List Token} (h : Listed parts ts) :
    Listed (parts.map (List.map (Token.renumber g))) (ts.map (Token.renumber g)) := by
  induction h with
  | none => exact .none
  | one ts => exact .one _
  | more hc _ ih =>
    rw [List.map_append, List.map_cons]
    exact .more hc ih

theorem Derives.renumber {l : Layer} {ts : List Token} {e : Expr} (h : Derives l ts e) :
    Derives l (ts.map (Token.renumber g)) (e.renumber g) := by
  induction h with
  | assign hx hop _ ih => exact .assign hx hop ih
  | logical hop _ _ ihl ihr =>
    rw [List.map_append, List.map_cons]
    exact .logical hop ihl ihr
  | binary hop _ _ ihl ihr =>
    rw [List.map_append, List.map_cons]
    exact .binary hop ihl ihr
  | unary hop _ ih => exact .unary hop ih
  | stepBefore hop hx => exact .stepBefore hop hx
  | stepAfter hx hop => exact .stepAfter hx hop
  | @call opened paren ts us callee args _ ho hl ha hn hp ihc ihs =>
    let parts := args.map fun a => (a.1.map (Token.renumber g), a.2.renumber g)
    have firsts : parts.map Prod.fst = (args.map Prod.fst).map (List.map (Token.renumber g)) := by
      simp [parts, Function.comp_def]
    have seconds : parts.map Prod.snd = Expr.renumberAll g (args.map Prod.snd) := by
      simp [parts, Expr.renumberAll_eq_map, Function.comp_def]
    have listed : Listed (parts.map Prod.fst) (us.map (Token.renumber g)) := by
      rw [firsts]
      exact hl.renumber g
    have derived : ∀ a ∈ parts, Derives .assignment a.1 a.2 := by
      intro a hmem
      obtain ⟨b, hb, rfl⟩ := List.mem_map.1 hmem
      exact ihs b hb
    have few : parts.length ≤ 255 := by
      rw [List.length_map]
      exact hn
    simp only [List.map_append, List.map_cons, List.map_nil, Expr.renumber, ← seconds]
    exact .call ihc ho listed derived few hp
  | name hx => exact .name hx
  | literal hk hl => exact .literal hk hl
  | yes hk => exact .yes hk
  | no hk => exact .no hk
  | nil hk => exact .nil hk
  | group ho _ hc ih =>
    rw [List.map_cons, List.map_append]
    exact .group ho ih hc
  | tighter _ ih => exact .tighter ih

theorem Optionally.renumber {ts : List Token} {o : Option Expr} (h : Optionally ts o) :
    Optionally (ts.map (Token.renumber g)) (o.map (Expr.renumber g)) := by
  cases h with
  | absent => exact .absent
  | given h => exact .given (h.renumber g)

theorem VariableClause.renumber {ts : List Token} {s : Stmt} (h : VariableClause ts s) :
    VariableClause (ts.map (Token.renumber g)) (s.renumber g) := by
  cases h with
  | plain hv hx hs => exact .plain hv hx hs
  | initialized hv hx he h hs =>
    simp only [List.map_cons, List.map_append]
    exact .initialized hv hx he (h.renumber g) hs

theorem InitialClause.renumber {ts : List Token} {init : Option Stmt} (h : InitialClause ts init) :
    InitialClause (ts.map (Token.renumber g)) (init.map (Stmt.renumber g)) := by
  cases h with
  | absent hs => exact .absent hs
  | binding h => exact .binding (h.renumber g)
  | expression h hs =>
    rw [List.map_append]
    exact .expression (h.renumber g) hs

private theorem forBlock_renumber (init : Option Stmt) (c increment : Option Expr) (body : Stmt) :
    (forBlock init c increment body).renumber g =
      forBlock (init.map (Stmt.renumber g)) (c.map (Expr.renumber g))
        (increment.map (Expr.renumber g)) (body.renumber g) := by
  cases init <;> cases c <;> cases increment <;> rfl

/-- The parts of a block, each with its own tokens. -/
def renumberParts (body : List (List Token × Stmt)) : List (List Token × Stmt) :=
  body.map fun d => (d.1.map (Token.renumber g), d.2.renumber g)

private theorem flatMap_renumberParts (body : List (List Token × Stmt)) :
    (renumberParts g body).flatMap Prod.fst = (body.flatMap Prod.fst).map (Token.renumber g) := by
  induction body with
  | nil => rfl
  | cons d body ih =>
    rw [renumberParts, List.map_cons, List.flatMap_cons, List.flatMap_cons, List.map_append]
    exact congrArg _ ih

private theorem map_renumberParts (body : List (List Token × Stmt)) :
    (renumberParts g body).map Prod.snd = Stmt.renumberAll g (body.map Prod.snd) := by
  simp [renumberParts, Stmt.renumberAll_eq_map, Function.comp_def]

private theorem forall_renumberParts {body : List (List Token × Stmt)}
    (h : ∀ d ∈ body, Sentence .declaration (d.1.map (Token.renumber g)) (d.2.renumber g)) :
    ∀ d ∈ renumberParts g body, Sentence .declaration d.1 d.2 := by
  intro d hd
  obtain ⟨part, hpart, rfl⟩ := List.mem_map.1 hd
  exact h part hpart

theorem Sentence.renumber {f : Form} {ts : List Token} {s : Stmt} (h : Sentence f ts s) :
    Sentence f (ts.map (Token.renumber g)) (s.renumber g) := by
  induction h with
  | expression h hs =>
    rw [List.map_append]
    exact .expression (h.renumber g) hs
  | print hp h hs =>
    rw [List.map_cons, List.map_append]
    exact .print hp (h.renumber g) hs
  | ret hr h hs =>
    rw [List.map_cons, List.map_append]
    exact .ret hr (h.renumber g) hs
  | @block opened closed body ho hb hc ih =>
    simp only [List.map_cons, List.map_append, List.map_nil, Stmt.renumber,
      ← flatMap_renumberParts, ← map_renumberParts]
    exact .block ho (forall_renumberParts g ih) hc
  | ifThen hk ho h hc _ ih =>
    simp only [List.map_cons, List.map_append]
    exact .ifThen hk ho (h.renumber g) hc ih
  | ifElse hk ho h hc _ he _ ihy ihn =>
    simp only [List.map_cons, List.map_append]
    exact .ifElse hk ho (h.renumber g) hc ihy he ihn
  | loop hk ho h hc _ ih =>
    simp only [List.map_cons, List.map_append]
    exact .loop hk ho (h.renumber g) hc ih
  | forLoop hk ho hi hc hs hn hcl _ ih =>
    simp only [List.map_cons, List.map_append, forBlock_renumber]
    exact .forLoop hk ho (hi.renumber g) (hc.renumber g) hs (hn.renumber g) hcl ih
  | ofStatement _ ih => exact .ofStatement ih
  | binding h => exact .binding (h.renumber g)
  | @function kw name opened closed start finish params ts body hk hn ho hl hp hcount hc hs hb hf ih =>
    have listed : Listed ((params.map (Token.renumber g)).map fun p => [p])
        (ts.map (Token.renumber g)) := by
      have mapped := hl.renumber g
      simp only [List.map_map, Function.comp_def, List.map_cons, List.map_nil] at mapped ⊢
      exact mapped
    have identifiers : ∀ p ∈ params.map (Token.renumber g), p.kind = .identifier := by
      intro p hmem
      obtain ⟨q, hq, rfl⟩ := List.mem_map.1 hmem
      exact hp q hq
    have few : (params.map (Token.renumber g)).length ≤ 255 := by
      rw [List.length_map]
      exact hcount
    simp only [List.map_cons, List.map_append, List.map_nil, Stmt.renumber,
      ← flatMap_renumberParts, ← map_renumberParts]
    exact .function hk hn ho listed identifiers few hc hs (forall_renumberParts g ih) hf

namespace IsProgram

theorem renumber {ts : List Token} {ss : List Stmt} (h : IsProgram ts ss) :
    IsProgram (ts.map (Token.renumber g)) (Stmt.renumberAll g ss) := by
  obtain ⟨body, hb, rfl, rfl⟩ := h
  refine ⟨renumberParts g body, ?_, ?_, ?_⟩
  · apply forall_renumberParts
    intro d hd
    exact (hb d hd).renumber g
  · rw [flatMap_renumberParts]
  · rw [map_renumberParts]

/-- No declaration reaches into the ones behind it. -/
theorem append {ts us : List Token} {ss rest : List Stmt} (h : IsProgram ts ss)
    (hrest : IsProgram us rest) : IsProgram (ts ++ us) (ss ++ rest) := by
  obtain ⟨body, hb, rfl, rfl⟩ := h
  obtain ⟨more, hm, rfl, rfl⟩ := hrest
  refine ⟨body ++ more, ?_, ?_, ?_⟩
  · intro d hmem
    rcases List.mem_append.1 hmem with h | h
    · exact hb d h
    · exact hm d h
  · rw [List.flatMap_append]
  · rw [List.map_append]

end IsProgram

end Scriptlet.Grammar
