import Scriptlet.Grammar.Fault

namespace Scriptlet.Grammar

/-- What a reader knows beside the tokens: the line of the end of the input, and whether the last
semicolon of the input may be left out. -/
structure Setting where
  endLine : Nat
  interactive : Bool
  deriving DecidableEq, Repr

/-- The fault is shown by the next token, or by the end. -/
def Setting.error (s : Setting) (fault : Fault) : List Token → ParseError
  | [] => ⟨fault, .atEnd, s.endLine⟩
  | t :: _ => .atToken t fault

/-- What was read and what is left, with the faults that did not keep the reading from going on. -/
inductive Reply (α : Type) where
  | done (value : α) (rest : List Token) (notes : List ParseError)
  | failed (error : ParseError) (rest : List Token) (notes : List ParseError)

namespace Reply

variable {α β : Type}

def rest : Reply α → List Token
  | done _ ts _ => ts
  | failed _ ts _ => ts

/-- Everything found wrong, in order: a failure comes after the faults that led up to it. -/
def errors : Reply α → List ParseError
  | done _ _ notes => notes
  | failed e _ notes => notes ++ [e]

def addNotes (notes : List ParseError) : Reply α → Reply α
  | done a ts more => done a ts (notes ++ more)
  | failed e ts more => failed e ts (notes ++ more)

def bind (r : Reply α) (f : α → List Token → Reply β) : Reply β :=
  match r with
  | done a ts notes => (f a ts).addNotes notes
  | failed e ts notes => failed e ts notes

def map (g : α → β) (r : Reply α) : Reply β := r.bind fun a ts => done (g a) ts []

/-- Fewer than `n` tokens are left after a success, and no more than `n` after a failure. -/
def Within (n : Nat) : Reply α → Prop
  | done _ ts _ => ts.length < n
  | failed _ ts _ => ts.length ≤ n

theorem Within.mono {m n : Nat} (h : m ≤ n) : ∀ {r : Reply α}, r.Within m → r.Within n
  | done .., hr => Nat.lt_of_lt_of_le hr h
  | failed .., hr => Nat.le_trans hr h

@[simp] theorem done_bind (a : α) (ts : List Token) (f : α → List Token → Reply β) :
    (done a ts []).bind f = f a ts := by
  rw [bind]
  cases f a ts <;> rfl

@[simp] theorem done_map (g : α → β) (a : α) (ts : List Token) :
    (done a ts []).map g = done (g a) ts [] := rfl

theorem addNotes_eq_done_iff {r : Reply α} {notes : List ParseError} {a : α} {ts : List Token} :
    r.addNotes notes = done a ts [] ↔ notes = [] ∧ r = done a ts [] := by
  cases r with
  | done b us more =>
    simp only [addNotes, done.injEq, List.append_eq_nil_iff]
    exact ⟨fun ⟨h, h', hn, hm⟩ => ⟨hn, h, h', hm⟩, fun ⟨hn, h, h', hm⟩ => ⟨h, h', hn, hm⟩⟩
  | failed e us more => simp [addNotes]

/-- Two readers, one after the other, find nothing wrong when neither does. -/
theorem bind_eq_done_iff {r : Reply α} {f : α → List Token → Reply β} {b : β} {us : List Token} :
    r.bind f = done b us [] ↔ ∃ a ts, r = done a ts [] ∧ f a ts = done b us [] := by
  constructor
  · intro h
    cases r with
    | done a ts notes =>
      obtain ⟨rfl, hf⟩ := addNotes_eq_done_iff.1 h
      exact ⟨a, ts, rfl, hf⟩
    | failed e ts notes => cases h
  · rintro ⟨a, ts, rfl, hf⟩
    rw [done_bind, hf]

theorem map_eq_done_iff {r : Reply α} {g : α → β} {b : β} {us : List Token} :
    r.map g = done b us [] ↔ ∃ a, r = done a us [] ∧ g a = b := by
  rw [map, bind_eq_done_iff]
  constructor
  · rintro ⟨a, ts, h, hd⟩
    cases hd
    exact ⟨a, h, rfl⟩
  · rintro ⟨a, h, rfl⟩
    exact ⟨a, us, h, rfl⟩

theorem Within.addNotes {n : Nat} (notes : List ParseError) :
    ∀ {r : Reply α}, r.Within n → (r.addNotes notes).Within n
  | done .., hr => hr
  | failed .., hr => hr

theorem Within.bind {n : Nat} {r : Reply α} {f : α → List Token → Reply β} (hr : r.Within n)
    (hf : ∀ a ts, ts.length < n → (f a ts).Within (ts.length + 1)) : (r.bind f).Within n := by
  cases r with
  | done a ts notes => exact ((hf a ts hr).mono hr).addNotes notes
  | failed e ts notes => exact hr

theorem Within.map {n : Nat} (g : α → β) {r : Reply α} (hr : r.Within n) : (r.map g).Within n :=
  hr.bind fun _ _ _ => Nat.lt_succ_self _

/-- A reply to all but the first token is one to all of them. -/
theorem Within.afterNext {r : Reply α} {ts : List Token} (hr : r.Within ts.tail.length) :
    r.Within ts.length :=
  hr.mono (List.length_tail ▸ Nat.sub_le ..)

end Reply

/-- No more tokens are left than there were, which is why the readers of the grammar terminate. -/
abbrev Bounded (n : Nat) (α : Type) := { r : Reply α // r.Within n }

namespace Bounded

variable {α β : Type} {m n : Nat}

def done (a : α) (ts : List Token) : Bounded (ts.length + 1) α :=
  ⟨.done a ts [], Nat.lt_succ_self _⟩

def failed (e : ParseError) (ts : List Token) : Bounded ts.length α :=
  ⟨.failed e ts [], Nat.le_refl _⟩

def mono (r : Bounded m α) (h : m ≤ n) : Bounded n α := ⟨r.1, r.2.mono h⟩

def loosen (r : Bounded n α) : Bounded (n + 1) α := r.mono (Nat.le_succ n)

def afterNext {ts : List Token} (r : Bounded ts.tail.length α) : Bounded ts.length α :=
  ⟨r.1, r.2.afterNext⟩

def addNotes (notes : List ParseError) (r : Bounded n α) : Bounded n α :=
  ⟨r.1.addNotes notes, r.2.addNotes notes⟩

/-- Goes on with the rest of the tokens, which the second reader need not touch. -/
def bind (r : Bounded n α)
    (f : (a : α) → (ts : List Token) → ts.length < n → Bounded (ts.length + 1) β) : Bounded n β :=
  match r with
  | ⟨.done a ts notes, h⟩ => ((f a ts h).mono h).addNotes notes
  | ⟨.failed e ts notes, h⟩ => ⟨.failed e ts notes, h⟩

def map (g : α → β) (r : Bounded n α) : Bounded n β := r.bind fun a ts _ => done (g a) ts

@[simp] theorem val_done (a : α) (ts : List Token) : (done a ts).1 = .done a ts [] := rfl

@[simp] theorem val_failed (e : ParseError) (ts : List Token) :
    (failed e ts : Bounded ts.length α).1 = .failed e ts [] := rfl

@[simp] theorem val_mono (r : Bounded m α) (h : m ≤ n) : (r.mono h).1 = r.1 := rfl

@[simp] theorem val_loosen (r : Bounded n α) : r.loosen.1 = r.1 := rfl

@[simp] theorem val_afterNext {ts : List Token} (r : Bounded ts.tail.length α) :
    r.afterNext.1 = r.1 := rfl

@[simp] theorem val_addNotes (notes : List ParseError) (r : Bounded n α) :
    (r.addNotes notes).1 = r.1.addNotes notes := rfl

/-- The bound is only a bound: the replies are those of the plain `Reply.bind`. -/
theorem val_bind (r : Bounded n α)
    (f : (a : α) → (ts : List Token) → ts.length < n → Bounded (ts.length + 1) β)
    (g : α → List Token → Reply β) (h : ∀ a ts hts, (f a ts hts).1 = g a ts) :
    (r.bind f).1 = r.1.bind g := by
  match r with
  | ⟨.done a ts notes, hr⟩ => exact congrArg (Reply.addNotes notes) (h a ts hr)
  | ⟨.failed e ts notes, hr⟩ => rfl

@[simp] theorem val_map (g : α → β) (r : Bounded n α) : (r.map g).1 = r.1.map g :=
  val_bind _ _ _ fun _ _ _ => rfl

end Bounded

/-- Whether the next token has the given kind. -/
def nextIs (kind : TokenKind) : List Token → Bool
  | [] => false
  | t :: _ => t.kind == kind

/-- Takes a token of the given kind. -/
def expect (s : Setting) (kind : TokenKind) (fault : Fault) : List Token → Reply Token
  | [] => .failed (s.error fault []) [] []
  | t :: ts =>
    if t.kind = kind then .done t ts [] else .failed (s.error fault (t :: ts)) (t :: ts) []

/-- Takes the semicolon that ends a statement. In an interactive setting the end of the input will do
in its place. -/
def endStatement (s : Setting) (fault : Fault) (ts : List Token) : Reply Unit :=
  if s.interactive && ts.isEmpty then .done () [] []
  else (expect s .semicolon fault ts).map fun _ => ()

theorem expect_cons (s : Setting) {kind : TokenKind} (fault : Fault) {t : Token} (ts : List Token)
    (h : t.kind = kind) : expect s kind fault (t :: ts) = .done t ts [] := by
  rw [expect, if_pos h]

theorem expect_eq_done_iff {s : Setting} {kind : TokenKind} {fault : Fault} {ts us : List Token}
    {t : Token} : expect s kind fault ts = .done t us [] ↔ ts = t :: us ∧ t.kind = kind := by
  constructor
  · intro h
    cases ts with
    | nil => cases h
    | cons v vs =>
      rw [expect] at h
      split at h
      · cases h
        exact ⟨rfl, ‹_›⟩
      · cases h
  · rintro ⟨rfl, h⟩
    exact expect_cons s fault us h

theorem endStatement_cons (s : Setting) (fault : Fault) {t : Token} (ts : List Token)
    (h : t.kind = .semicolon) : endStatement s fault (t :: ts) = .done () ts [] := by
  rw [endStatement, if_neg (by simp), expect_cons s fault ts h, Reply.done_map]

/-- A statement ends with its semicolon, or with the end of the input where that will do. -/
theorem endStatement_eq_done_iff {s : Setting} {fault : Fault} {ts us : List Token} :
    endStatement s fault ts = .done () us [] ↔
      (∃ t, ts = t :: us ∧ t.kind = .semicolon) ∨ s.interactive = true ∧ ts = [] ∧ us = [] := by
  cases ts with
  | nil =>
    cases hs : s.interactive <;>
      simp [endStatement, hs, expect, Reply.map, Reply.bind, eq_comm]
  | cons t ts =>
    rw [endStatement, if_neg (by simp), Reply.map_eq_done_iff]
    simp [expect_eq_done_iff]

theorem expect_within (s : Setting) (kind : TokenKind) (fault : Fault) (ts : List Token) :
    (expect s kind fault ts).Within ts.length := by
  cases ts with
  | nil => exact Nat.le_refl _
  | cons t ts =>
    rw [expect]; split
    · exact Nat.lt_succ_self _
    · exact Nat.le_refl _

theorem endStatement_within (s : Setting) (fault : Fault) (ts : List Token) :
    (endStatement s fault ts).Within (ts.length + 1) := by
  unfold endStatement; split
  · exact Nat.zero_lt_succ _
  · exact ((expect_within ..).map _).mono (Nat.le_succ _)

def expectWithin (s : Setting) (kind : TokenKind) (fault : Fault) (ts : List Token) :
    Bounded ts.length Token :=
  ⟨expect s kind fault ts, expect_within ..⟩

@[simp] theorem val_expectWithin (s : Setting) (kind : TokenKind) (fault : Fault) (ts : List Token) :
    (expectWithin s kind fault ts).1 = expect s kind fault ts := rfl

end Scriptlet.Grammar
