import Mathlib.Data.List.TakeWhile
import Scriptlet.Proofs.Grammar.TapeProgram

namespace Scriptlet

open Grammar

variable {α : Type}

private theorem Grammar.Reply.Within.length_rest {n : Nat} {r : Reply α} (h : r.Within n) :
    r.rest.length ≤ n := by
  cases r with
  | done => exact Nat.le_of_lt h
  | failed => exact h

namespace Walk.Follows

variable {input : List Token} {w w' : Walk α} {r : Reply α}

private theorem index?_eq (h : w.Follows input r) :
    w.index? = some (input.length - r.rest.length) := by
  have hindex {i : Nat} (hi : i ≤ input.length) :
      i = input.length - (input.drop i).length := by
    rw [List.length_drop]
    omega
  cases h with
  | done hi hrest => exact congrArg some (hrest ▸ hindex hi)
  | failed hi hrest => exact congrArg some (hrest ▸ hindex hi)

/-- A walk is the only one that follows a reply. -/
theorem unique (h : w.Follows input r) (h' : w'.Follows input r) : w = w' := by
  have hindex := h.index?_eq.trans h'.index?_eq.symm
  cases h with
  | done _ _ =>
    cases h' with
    | done _ _ =>
      cases hindex
      rfl
  | failed _ _ =>
    cases h' with
    | failed _ _ =>
      cases hindex
      rfl

end Walk.Follows

namespace Tape

/-- What a parser can be asked to read. -/
inductive Call where
  | program | declaration | statement
  | expression (min : Precedence)
  deriving DecidableEq, Repr

namespace Call

abbrev Result : Call → Type
  | program => List Stmt
  | declaration | statement => Stmt
  | expression _ => Expr

def walk (tape : Tape) (n : Nat) : (c : Call) → Walker c.Result
  | program => tape.program Walker n
  | declaration => tape.declaration Walker n
  | statement => tape.statement Walker n
  | expression min => tape.expression Walker n min

def reply (s : Setting) (ts : List Token) : (c : Call) → Reply c.Result
  | program => (declarations s ts).reply
  | declaration => (item s ts).reply
  | statement => Grammar.statement s ts
  | expression min => Grammar.expression s min ts

/-- A call goes from one index to another, where `last` is the index of the first `eof`. -/
structure Moves (last : Nat) (c : Call) (i j : Nat) : Prop where
  forward : i ≤ j
  inside : j ≤ last
  /-- Also a declaration that cannot be read takes a token. -/
  declaration : c = .declaration → i < last → i < j
  program : c = .program → j = last

/-- Calls, one after the other, from an index to each of the next ones. -/
inductive MovesAlong (last : Nat) : List Call → Nat → List Nat → Prop where
  | nil (i : Nat) : MovesAlong last [] i []
  | cons {c : Call} {calls : List Call} {i j : Nat} {path : List Nat} :
    c.Moves last i j → MovesAlong last calls j path → MovesAlong last (c :: calls) i (j :: path)

private theorem length_rest_item (s : Setting) (ts : List Token) :
    (item s ts).rest.length ≤ ts.length :=
  Reply.length_settle ((declaration_within s ts).mono (Nat.le_succ _))

private theorem length_rest_reply (s : Setting) (ts : List Token) (c : Call) :
    (c.reply s ts).rest.length ≤ ts.length := by
  cases c with
  | program => exact Nat.zero_le _
  | declaration => exact length_rest_item s ts
  | statement => exact (statement_within s ts).length_rest
  | expression min => exact (expression_within s min ts).length_rest

private theorem moves_reply (s : Setting) {input : List Token} {i : Nat} (hi : i ≤ input.length)
    (c : Call) :
    c.Moves input.length i (input.length - (c.reply s (input.drop i)).rest.length) where
  forward := by
    have hrest := length_rest_reply s (input.drop i) c
    rw [List.length_drop] at hrest
    omega
  inside := Nat.sub_le ..
  declaration := by
    rintro rfl hlt
    have hrest := length_item s input[i] (input.drop (i + 1))
    rw [← List.drop_eq_getElem_cons hlt, List.length_drop] at hrest
    rw [reply, Item.reply, Reply.rest]
    omega
  program := by
    rintro rfl
    rfl

end Call

/-- The indices after each of the calls, where all of them come to an end. -/
def path (tape : Tape) (n : Nat) : List Call → Nat → Option (List Nat)
  | [], _ => some []
  | c :: calls, i => do
    let j ← (c.walk tape n i).index?
    let more ← tape.path n calls j
    return j :: more

/-- The index of the first `eof`. -/
def firstEnd (tape : Tape) : Nat := tape.tokens.findIdx (·.kind == .eof)

/-- The tape without the tokens behind the first `eof`. -/
def cut (tape : Tape) : Tape := { tape with tokens := tape.tokens.take (tape.firstEnd + 1) }

namespace Holds

variable {tape : Tape} {s : Setting} {input : List Token} {i n : Nat}

theorem call (h : tape.Holds s input) (c : Call) (hi : i ≤ input.length)
    (hn : 4 * input.length + 4 ≤ n) :
    (c.walk tape n i).Follows input (c.reply s (input.drop i)) := by
  cases c with
  | program => exact h.program hi (by omega)
  | declaration => exact (h.statementsFollow n).declaration hi (by omega)
  | statement => exact (h.statementsFollow n).statement hi (by omega)
  | expression min => exact h.expression min hi (by omega)

theorem path (h : tape.Holds s input) (calls : List Call) (hi : i ≤ input.length) :
    ∃ path, Call.MovesAlong input.length calls i path ∧
      ∀ n, 4 * input.length + 4 ≤ n → tape.path n calls i = some path := by
  induction calls generalizing i with
  | nil => exact ⟨[], .nil i, fun _ _ => rfl⟩
  | cons c calls ih =>
    have hmoves := c.moves_reply s hi
    obtain ⟨path, hpath, hruns⟩ := ih hmoves.inside
    refine ⟨_ :: path, .cons hmoves hpath, ?_⟩
    intro n hn
    rw [Tape.path, (h.call c hi hn).index?_eq, Option.bind_eq_bind, Option.bind_some, hruns n hn]
    rfl

theorem firstEnd_eq (h : tape.Holds s input) : tape.firstEnd = input.length := by
  obtain ⟨t, behind, htokens, hkind, _⟩ := h.closed
  have hinput : input.findIdx (·.kind == .eof) = input.length :=
    List.findIdx_eq_length.2 fun t ht => beq_false_of_ne (h.proper t ht)
  rw [firstEnd, htokens, List.findIdx_append, hinput, if_neg (Nat.lt_irrefl _), List.findIdx_cons,
    hkind]
  exact Nat.zero_add _

theorem cut (h : tape.Holds s input) : tape.cut.Holds s input where
  interactive := h.interactive
  proper := h.proper
  closed := by
    obtain ⟨t, behind, htokens, hkind, hline⟩ := h.closed
    refine ⟨t, [], ?_, hkind, hline⟩
    rw [Tape.cut, h.firstEnd_eq, htokens, List.take_length_add_append]
    rfl

end Holds

private theorem input_of_find? {tokens : List Token} {e : Token}
    (h : tokens.find? (·.kind == .eof) = some e) :
    e.kind = .eof ∧ ∃ behind, tokens = input tokens ++ e :: behind := by
  obtain ⟨hkind, before, behind, rfl, hbefore⟩ := List.find?_eq_some_iff_append.1 h
  rw [beq_iff_eq] at hkind
  have hproper : ∀ t ∈ before, (t.kind != .eof) = true := hbefore
  have hinput : input (before ++ e :: behind) = before := by
    rw [input, List.takeWhile_append_of_pos hproper, List.takeWhile_cons_of_neg (by simp [hkind]),
      List.append_nil]
  exact ⟨hkind, behind, by rw [hinput]⟩

private theorem input_of_find?_eq_none {tokens : List Token}
    (h : tokens.find? (·.kind == .eof) = none) :
    input tokens = tokens :=
  List.takeWhile_eq_self_iff.2 fun t ht => by simpa using List.find?_eq_none.1 h t ht

/-- Tokens without an end get one on the line of the last of them. -/
theorem close_of_find?_eq_none {tokens : List Token} (h : tokens.find? (·.kind == .eof) = none) :
    close tokens = tokens ++ [Scan.eof (lineOfEnd tokens)] := by
  rw [close, lineOfEnd, h]
  cases hlast : tokens.getLast? with
  | none =>
    rw [List.getLast?_eq_none_iff.1 hlast]
    rfl
  | some t =>
    have hne : t.kind ≠ .eof := by
      simpa using List.find?_eq_none.1 h t (List.mem_of_getLast? hlast)
    dsimp only
    rw [if_neg hne]
    rfl

private theorem close_eq_append (tokens : List Token) : ∃ more, close tokens = tokens ++ more := by
  rw [close]
  split
  · rename_i hlast
    exact ⟨_, by rw [List.getLast?_eq_none_iff.1 hlast]; rfl⟩
  split
  · exact ⟨[], (List.append_nil _).symm⟩
  · exact ⟨_, rfl⟩

theorem holds_ofTokens (interactive : Bool) (tokens : List Token) :
    (ofTokens interactive tokens).Holds (.ofTokens interactive tokens) (input tokens) where
  interactive := rfl
  proper := fun t ht => by simpa using List.mem_takeWhile_imp ht
  closed := by
    show ∃ t behind, close tokens = input tokens ++ t :: behind ∧ t.kind = .eof ∧
      t.line = lineOfEnd tokens
    cases hfind : tokens.find? (·.kind == .eof) with
    | none =>
      refine ⟨Scan.eof (lineOfEnd tokens), [], ?_, rfl, rfl⟩
      rw [input_of_find?_eq_none hfind, close_of_find?_eq_none hfind]
    | some e =>
      obtain ⟨hkind, behind, htokens⟩ := input_of_find? hfind
      obtain ⟨more, hmore⟩ := close_eq_append tokens
      refine ⟨e, behind ++ more, ?_, hkind, by rw [lineOfEnd, hfind]⟩
      rw [hmore, ← List.cons_append, ← List.append_assoc, ← htokens]

/-- Calls, one after the other, come to an end and read what is read from the list of tokens that are
left. They never go back or past the first `eof`, whatever is behind it. -/
theorem calls_end_within_tokens (interactive : Bool) (tokens : List Token) :
    let tape := ofTokens interactive tokens
    tape.firstEnd < tape.tokens.length ∧
    ∀ i, i ≤ tape.firstEnd →
      (∀ calls, ∃ path, Call.MovesAlong tape.firstEnd calls i path ∧
        ∀ n, 4 * tape.firstEnd + 4 ≤ n → tape.path n calls i = some path) ∧
      ∀ c n, 4 * tape.firstEnd + 4 ≤ n →
        (Call.walk tape n c i).Follows (input tokens)
          (c.reply (.ofTokens interactive tokens) ((input tokens).drop i)) ∧
        Call.walk tape.cut n c i = Call.walk tape n c i := by
  intro tape
  have h : tape.Holds (.ofTokens interactive tokens) (input tokens) :=
    holds_ofTokens interactive tokens
  rw [h.firstEnd_eq]
  refine ⟨?_, fun i hi => ⟨fun calls => h.path calls hi, fun c n hn => ?_⟩⟩
  · obtain ⟨t, behind, htokens, _, _⟩ := h.closed
    rw [htokens, List.length_append, List.length_cons]
    omega
  · have hwalk := h.call c hi hn
    exact ⟨hwalk, (h.cut.call c hi hn).unique hwalk⟩

/-- Two declarations cannot be read, and there is a name behind the first `eof`. -/
theorem calls_end_before_name :
    let tokens : List Token := [⟨.plus, "+", none, 1⟩, ⟨.kwVar, "var", none, 1⟩,
      ⟨.semicolon, ";", none, 1⟩, Scan.eof 1, ⟨.identifier, "a", none, 2⟩]
    let calls := [.expression .lowest, .declaration, .declaration, .program, .statement]
    (ofTokens true tokens).path 16 calls 0 = some [0, 1, 3, 3, 3] ∧
      Call.MovesAlong 3 calls 0 [0, 1, 3, 3, 3] := by
  intro tokens calls
  obtain ⟨path, hmoves, hruns⟩ :=
    ((calls_end_within_tokens true tokens).2 0 (Nat.zero_le _)).1 calls
  have hrun : (ofTokens true tokens).path 16 calls 0 = some [0, 1, 3, 3, 3] := by decide
  have hpath : path = [0, 1, 3, 3, 3] := by
    rw [hruns 16 (by decide)] at hrun
    exact Option.some.inj hrun
  exact ⟨hrun, hpath ▸ hmoves⟩

end Tape

end Scriptlet
