import Scriptlet.Grammar.Statement
import Scriptlet.Proofs.Grammar.Layer

namespace Scriptlet.Grammar

variable {α : Type}

/-- `many` reads entries with commas between them, each one by `one`, after `count` others. -/
def ReadsCommaList (s : Setting) (fault : Fault) (one : List Token → Reply α)
    (many : Nat → List Token → Reply (List α)) : Prop :=
  ∀ count ts, many count ts =
    ((one ts).bind fun a rest =>
      if nextIs .comma rest then (many (count + 1) rest.tail).map (a :: ·)
      else .done [a] rest []).addNotes (overLimit s fault count ts)

private theorem overLimit_eq_nil_iff (s : Setting) (fault : Fault) (count : Nat) (ts : List Token) :
    overLimit s fault count ts = [] ↔ count < 255 := by
  have hlimit : listLimit ≤ count ↔ 255 ≤ count := Iff.rfl
  by_cases h : listLimit ≤ count
  · simp only [overLimit, if_pos h]
    have := hlimit.1 h
    simp only [List.cons_ne_self, false_iff]
    omega
  · rw [overLimit, if_neg h]
    have : ¬ 255 ≤ count := fun hc => h (hlimit.2 hc)
    simp only [true_iff]
    omega

namespace ReadsCommaList

variable {s : Setting} {fault : Fault} {one : List Token → Reply α}
  {many : Nat → List Token → Reply (List α)}

/-- Entries that can be read one by one are read as a list. -/
theorem append (h : ReadsCommaList s fault one many) {items : List (List Token × α)}
    {ts : List Token} {count : Nat} {closed : Token} (us : List Token)
    (hl : Listed (items.map Prod.fst) ts) (hne : items ≠ [])
    (hone : ∀ a ∈ items, ∀ t rest, t.kind = .comma ∨ t.kind = .rightParen →
      one (a.1 ++ t :: rest) = .done a.2 (t :: rest) [])
    (hcount : count + items.length ≤ 255) (hc : closed.kind = .rightParen) :
    many count (ts ++ closed :: us) = .done (items.map Prod.snd) (closed :: us) [] := by
  induction items generalizing ts count with
  | nil => exact absurd rfl hne
  | cons a items ih =>
    rw [List.length_cons] at hcount
    have hfew : overLimit s fault count (ts ++ closed :: us) = [] := by
      rw [overLimit_eq_nil_iff]
      omega
    have ha := hone a List.mem_cons_self
    rw [h, Reply.addNotes_eq_done_iff, Reply.bind_eq_done_iff]
    refine ⟨hfew, a.2, ?_⟩
    cases items with
    | nil =>
      cases hl with
      | one =>
        refine ⟨closed :: us, ha closed us (.inr hc), ?_⟩
        rw [if_neg (by simp [nextIs, hc])]
        rfl
    | cons b items =>
      cases hl with
      | @more _ ts _ _ comma hcomma hl =>
        have hmore : many (count + 1) (ts ++ closed :: us) =
            .done ((b :: items).map Prod.snd) (closed :: us) [] := by
          apply ih hl (by simp)
          · intro c hmem
            exact hone c (List.mem_cons_of_mem _ hmem)
          · omega
        refine ⟨comma :: (ts ++ closed :: us), ?_, ?_⟩
        · rw [List.append_assoc]
          exact ha comma _ (.inl hcomma)
        · rw [if_pos (by simp [nextIs, hcomma]), List.tail_cons, hmore]
          rfl

/-- Nothing is read at all where the parenthesis closes at once. -/
theorem parenthesized (h : ReadsCommaList s fault one many) {items : List (List Token × α)}
    {ts : List Token} {closed : Token} (us : List Token) (hl : Listed (items.map Prod.fst) ts)
    (hone : ∀ a ∈ items, ∀ t rest, t.kind = .comma ∨ t.kind = .rightParen →
      one (a.1 ++ t :: rest) = .done a.2 (t :: rest) [])
    (hopen : ∀ a ∈ items, ∀ rest, nextIs .rightParen (a.1 ++ rest) = false)
    (hcount : items.length ≤ 255) (hc : closed.kind = .rightParen) :
    (if nextIs .rightParen (ts ++ closed :: us) then .done [] (ts ++ closed :: us) []
      else many 0 (ts ++ closed :: us)) = .done (items.map Prod.snd) (closed :: us) [] := by
  cases items with
  | nil =>
    cases hl
    rw [List.nil_append, if_pos (by simp [nextIs, hc])]
    rfl
  | cons a items =>
    have hnext : nextIs .rightParen (ts ++ closed :: us) = false := by
      obtain ⟨more, rfl⟩ := hl.exists_append
      rw [List.append_assoc]
      exact hopen a List.mem_cons_self _
    rw [hnext, h.append us hl (by simp) hone (by omega) hc]
    rfl

/-- What is read as a list is entries with commas between them. -/
theorem sound (h : ReadsCommaList s fault one many) {n : Nat} {derives : List Token → α → Prop}
    (hone : ∀ ts a rest, ts.length < n → one ts = .done a rest [] →
      ∃ pre, ts = pre ++ rest ∧ derives pre a)
    {ts us : List Token} {as : List α} {count : Nat} (hn : ts.length < n)
    (hread : many count ts = .done as us []) :
    ∃ (items : List (List Token × α)) (pre : List Token), ts = pre ++ us ∧
      as = items.map Prod.snd ∧ Listed (items.map Prod.fst) pre ∧ items ≠ [] ∧
      (∀ a ∈ items, derives a.1 a.2) ∧ count + items.length ≤ 255 := by
  induction hk : ts.length using Nat.strongRecOn generalizing ts us as count with
  | ind k ih =>
    subst hk
    rw [h, Reply.addNotes_eq_done_iff, Reply.bind_eq_done_iff] at hread
    obtain ⟨hfew, a, rest, hfirst, hmore⟩ := hread
    have hcount := (overLimit_eq_nil_iff s fault count ts).1 hfew
    obtain ⟨pre, rfl, ha⟩ := hone ts a rest hn hfirst
    by_cases hnext : nextIs .comma rest = true
    · rw [if_pos hnext] at hmore
      obtain ⟨as, hlist, rfl⟩ := Reply.map_eq_done_iff.1 hmore
      cases rest with
      | nil => cases hnext
      | cons comma rest =>
        have hcomma : comma.kind = .comma := eq_of_beq hnext
        rw [List.tail_cons] at hlist
        have hlen : (pre ++ comma :: rest).length = pre.length + (rest.length + 1) := by simp
        obtain ⟨items, mid, rfl, rfl, hl, hne, hitems, hmany⟩ :=
          ih rest.length (by omega) (by omega) hlist rfl
        refine ⟨(pre, a) :: items, pre ++ comma :: mid, by simp, rfl, ?_, by simp, ?_, ?_⟩
        · cases items with
          | nil => exact absurd rfl hne
          | cons b items => exact .more hcomma hl
        · intro b hb
          rcases List.mem_cons.1 hb with rfl | hb
          · exact ha
          · exact hitems b hb
        · rw [List.length_cons]
          omega
    · rw [if_neg hnext] at hmore
      cases hmore
      refine ⟨[(pre, a)], pre, rfl, rfl, .one pre, by simp, ?_, hcount⟩
      intro b hb
      rw [List.mem_singleton.1 hb]
      exact ha

theorem parenthesized_sound (h : ReadsCommaList s fault one many) {n : Nat}
    {derives : List Token → α → Prop}
    (hone : ∀ ts a rest, ts.length < n → one ts = .done a rest [] →
      ∃ pre, ts = pre ++ rest ∧ derives pre a)
    {ts us : List Token} {as : List α} (hn : ts.length < n)
    (hread : (if nextIs .rightParen ts then .done [] ts [] else many 0 ts) = .done as us []) :
    ∃ (items : List (List Token × α)) (pre : List Token), ts = pre ++ us ∧
      as = items.map Prod.snd ∧ Listed (items.map Prod.fst) pre ∧
      (∀ a ∈ items, derives a.1 a.2) ∧ items.length ≤ 255 := by
  by_cases hnext : nextIs .rightParen ts = true
  · rw [if_pos hnext] at hread
    cases hread
    exact ⟨[], [], rfl, rfl, .none, by simp, Nat.zero_le _⟩
  · rw [if_neg hnext] at hread
    obtain ⟨items, pre, hts, has, hl, -, hitems, hmany⟩ := h.sound hone hn hread
    exact ⟨items, pre, hts, has, hl, hitems, by omega⟩

end ReadsCommaList

theorem readsCommaList_arguments (s : Setting) :
    ReadsCommaList s .tooManyArguments (expression s .lowest) (arguments s) :=
  arguments_eq s

theorem readsCommaList_parameters (s : Setting) :
    ReadsCommaList s .tooManyParameters (expect s .identifier .noParameterName) (parameters s) :=
  parameters_eq s

end Scriptlet.Grammar
