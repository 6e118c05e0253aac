import Scriptlet.Proofs.Grammar.TreeProperty

namespace Scriptlet

namespace Stmt

/-- The name that the statement itself declares. -/
def declared? : Stmt → Option Token
  | .var name _ | .function name _ _ => some name
  | _ => none

/-- The names that may be declared in the scope in which the statement stands. A block keeps the ones
declared inside, and a function those of its body. -/
def exposedDeclarations : Stmt → List Token
  | .var name _ | .function name _ _ => [name]
  | .expression _ | .print .. | .block _ | .ret .. | .broken => []
  | .ifThen _ yes => exposedDeclarations yes
  | .ifElse _ yes no => exposedDeclarations yes ++ exposedDeclarations no
  | .loop _ body => exposedDeclarations body

/-- No branch of an `if` and no body of a loop declares a name around it. -/
def PlacesDeclarations (s : Stmt) : Prop := s.exposedDeclarations = s.declared?.toList

private theorem PlacesDeclarations.of_exposed_eq_nil {s : Stmt} (h : s.exposedDeclarations = []) :
    s.PlacesDeclarations := by
  cases s with
  | var name init => cases h
  | function name params body => cases h
  | _ => exact h

end Stmt

namespace Grammar

open Reply

/-- What a reader gives, if nothing is asked of it. -/
theorem Reply.yields_true {α : Type} (r : Reply α) : r.Yields (fun _ => True) fun _ => True := by
  cases r with
  | done a rest notes => exact ⟨trivial, fun _ _ => trivial⟩
  | failed e rest notes => exact fun _ _ => trivial

/-- The statement declares nothing around it. -/
abbrev Undeclaring (st : Stmt) : Prop := st.exposedDeclarations = []

variable {s : Setting}

private theorem undeclaring_around (c : ForClauses) (body : Stmt) :
    Undeclaring (c.around body) := by
  obtain ⟨init, condition, increment⟩ := c
  cases increment <;> rfl

/-- A declaration is no statement in the sense of the grammar. -/
theorem yields_undeclaring (s : Setting) (ts : List Token) :
    (statement s ts).Yields (fun _ => True) Undeclaring := by
  have hterminated {ts : List Token} (fault : Fault) {f : Expr → Stmt}
      (hf : ∀ e, Undeclaring (f e)) :
      ((expression s .lowest ts).bind fun e rest =>
        (endStatement s fault rest).map fun _ => f e).Yields (fun _ => True) Undeclaring := by
    apply (yields_true _).bind
    intro e rest _ _
    apply (yields_true _).map
    intro _ _
    exact hf e
  induction hk : ts.length using Nat.strongRecOn generalizing ts with
  | ind k ih =>
    subst hk
    cases ts with
    | nil =>
      rw [statement_nil]
      exact hterminated _ fun _ => rfl
    | cons t ts =>
      have hinner {rest : List Token} (h : rest.length ≤ ts.length) :
          (statement s rest).Yields (fun _ => True) Undeclaring :=
        ih rest.length (Nat.lt_succ_of_le h) rest rfl
      rw [statement_cons]
      split
      · exact hterminated _ fun _ => rfl
      · apply (yields_true _).bind
        intro value rest _ _
        apply (yields_true _).map
        intro _ _
        rfl
      · apply (yields_true _).map
        intro _ _
        rfl
      · apply (yields_true _).bindWithin (condition_within ..)
        intro c rest hlen _ _
        apply (hinner (Nat.le_of_lt hlen)).bindWithin (statementWithin s rest).2
        intro yes rest hlen' hyes _
        split
        · apply (hinner (by rw [List.length_tail]; omega)).map
          intro no hno
          exact List.append_eq_nil_iff.2 ⟨hyes, hno⟩
        · exact ⟨hyes, fun _ _ => trivial⟩
      · apply (yields_true _).bindWithin (condition_within ..)
        intro c rest hlen _ _
        apply (hinner (Nat.le_of_lt hlen)).map
        intro body hbody
        exact hbody
      · apply (yields_true _).bind
        intro c rest _ _
        apply (yields_true _).map
        intro body _
        exact undeclaring_around c body
      · exact hterminated _ fun _ => rfl

private theorem yields_placesDeclarations (s : Setting) (ts : List Token) :
    (declaration s ts).Yields (fun _ => True) Stmt.PlacesDeclarations := by
  have hstatement (ts : List Token) :
      (statement s ts).Yields (fun _ => True) Stmt.PlacesDeclarations := by
    have hyields := yields_undeclaring s ts
    cases hr : statement s ts with
    | done st rest notes =>
      rw [hr] at hyields
      exact ⟨.of_exposed_eq_nil hyields.1, hyields.2⟩
    | failed e rest notes => exact fun _ _ => trivial
  cases ts with
  | nil => exact hstatement []
  | cons t ts =>
    rw [declaration]
    split
    · apply (yields_true _).bind
      intro name rest _ _
      apply (yields_true _).bind
      intro init rest _ _
      apply (yields_true _).map
      intro _ _
      rfl
    · apply (yields_true _).bind
      rintro ⟨name, params⟩ rest _ _
      apply (yields_true _).map
      intro _ _
      rfl
    · exact hstatement (t :: ts)

private theorem placesDeclarations_item (s : Setting) (ts : List Token) :
    (item s ts).stmt.PlacesDeclarations := by
  have hyields := yields_placesDeclarations s ts
  rw [item]
  cases hr : declaration s ts with
  | done st rest notes =>
    rw [hr] at hyields
    exact hyields.1
  | failed e rest notes => rfl

private theorem placesDeclarations_declarations (s : Setting) (ts : List Token) :
    ∀ st ∈ (declarations s ts).statements, st.PlacesDeclarations := by
  induction hk : ts.length using Nat.strongRecOn generalizing ts with
  | ind k ih =>
    subst hk
    cases ts with
    | nil =>
      rw [declarations]
      intro st hst
      cases hst
    | cons t ts =>
      have hmore := ih _ (Nat.lt_succ_of_le (length_item s t ts)) _ rfl
      rw [declarations]
      intro st hst
      rcases List.mem_cons.1 hst with rfl | hst
      · exact placesDeclarations_item s (t :: ts)
      · exact hmore st hst

/-- The statements that can be read, be it as one of a program, as one of a block or on its own. -/
inductive Readable : Stmt → Prop where
  | program {interactive : Bool} {tokens : List Token} {st : Stmt} :
    st ∈ (Program.ofTokens interactive tokens).statements → Readable st
  | item (s : Setting) (ts : List Token) : Readable (item s ts).stmt
  | alone {s : Setting} {ts rest : List Token} {st : Stmt} {notes : List ParseError} :
    statement s ts = .done st rest notes → Readable st

theorem Readable.placesDeclarations {st : Stmt} (h : Readable st) : st.PlacesDeclarations := by
  cases h with
  | program hst => exact placesDeclarations_declarations _ _ st hst
  | item s ts => exact placesDeclarations_item s ts
  | @alone s ts rest st notes hst =>
    have hyields := yields_undeclaring s ts
    rw [hst] at hyields
    exact .of_exposed_eq_nil hyields.1

end Grammar

end Scriptlet
