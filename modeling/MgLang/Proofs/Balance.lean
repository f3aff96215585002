import MgLang.Proofs.Alone
/-!
# What readers run over

A reader that succeeds has run over tokens in which every parenthesis has its partner, apart from
readers that begin behind an opening parenthesis and end with its partner. `Step.Runs` says which
partners the tokens lack, together with what else holds of them and of what was read. `Step.Keeps`
leaves the tokens out. There is one lemma for each reader.
-/

namespace MgLang

open Token (loose)

variable {file : String} {text : List Char}

/-! ### What a reader runs over -/

namespace Step

variable {α β : Type} {j k : Nat} {c : Cursor} {l : Loose}

/-- If the cursor stands in the file, the tokens that the reader runs over lack the partners `l`,
and `P` holds of them, of what was read and of the cursor behind. -/
def Runs (file : String) (text : List Char) (l : Loose) (x : Step k c α)
    (P : List Token → α → Cursor → Prop) : Prop :=
  c.On file text → ∀ a, x.outcome = .ok a →
    ∃ ts, c.Ran ts x.next ∧ loose ts = l ∧ P ts a x.next

section

variable {P : List Token → α → Cursor → Prop} {Q : List Token → β → Cursor → Prop}

theorem Runs.done {a : α} (h : P [] a c) : (done c a).Runs file text .none P := by
  rintro - _ ⟨⟩
  exact ⟨[], .refl c, rfl, h⟩

theorem Runs.fail (d : Diagnostic) (c' : Cursor) : (fail d c' : Step k c α).Runs file text l P :=
  fun _ _ h => nomatch h

/-- What is read next may depend on how the first thing was read. -/
theorem Runs.andThenFrom {r : Loose} {x : Step k c α}
    {f : α → (c' : Cursor) → c'.weight + k ≤ c.weight → Step j c' β}
    (hx : x.Runs file text l P)
    (hf : ∀ ts a c' h, x.Yields a c' → c.Ran ts c' → c'.On file text → loose ts = l → P ts a c' →
      (f a c' h).Runs file text r fun us => Q (ts ++ us)) :
    (x.andThen f).Runs file text (l.join r) Q := by
  obtain ⟨out, next, progress⟩ := x
  cases out with
  | error d => exact Runs.fail d next
  | ok a =>
    intro hon b hb
    obtain ⟨ts, hts, hl, ha⟩ := hx hon a rfl
    have hts : c.Ran ts next := hts
    obtain ⟨us, hus, hl', hq⟩ := hf ts a next (progress a rfl) ⟨rfl, rfl⟩ hts (hon.ran hts) hl ha
      (hon.ran hts) b hb
    refine ⟨ts ++ us, hts.trans hus, ?_, hq⟩
    rw [Token.loose_append, hl, hl']

theorem Runs.andThen {r : Loose} {x : Step k c α}
    {f : α → (c' : Cursor) → c'.weight + k ≤ c.weight → Step j c' β}
    (hx : x.Runs file text l P)
    (hf : ∀ ts a c' h, c.Ran ts c' → c'.On file text → loose ts = l → P ts a c' →
      (f a c' h).Runs file text r fun us => Q (ts ++ us)) :
    (x.andThen f).Runs file text (l.join r) Q :=
  hx.andThenFrom fun ts a c' h _ => hf ts a c' h

theorem Runs.optThen {r : Loose} {x : Step 0 c α}
    {f : α → (c' : Cursor) → c'.weight ≤ c.weight → Step k c' β}
    (hx : x.Runs file text l P)
    (hf : ∀ ts a c' h, c.Ran ts c' → c'.On file text → loose ts = l → P ts a c' →
      (f a c' h).Runs file text r fun us => Q (ts ++ us)) :
    (x.optThen f).Runs file text (l.join r) Q := by
  have hread := hx.andThen (f := f) hf
  obtain ⟨ho, hn⟩ := optThen_same x f
  intro hon b hb
  rw [ho] at hb
  rw [hn]
  exact hread hon b hb

theorem Runs.build {span : Span} {f : Node → α}
    (h : P [] (f ⟨c.nextId, span⟩) { c with nextId := c.nextId + 1 }) :
    (c.build span f).Runs file text .none P := by
  rintro - _ ⟨⟩
  exact ⟨[], ⟨rfl, rfl, rfl⟩, rfl, h⟩

/-- Another text is read without a token of this one. -/
theorem Runs.inside {R : α → Prop} {inner : Cursor} {x : Step k inner α}
    (h : c.On file text → ∀ a, x.outcome = .ok a → R a) :
    (Step.inside c x).Runs file text .none fun ts a _ => ts = [] ∧ R a :=
  fun hon a ha => ⟨[], ⟨rfl, rfl, rfl⟩, rfl, rfl, h hon a ha⟩

theorem Runs.mono {P' : List Token → α → Cursor → Prop} {x : Step k c α}
    (hx : x.Runs file text l P)
    (h : ∀ ts a n, c.On file text → c.Ran ts n → loose ts = l → P ts a n → P' ts a n) :
    x.Runs file text l P' := by
  intro hon a ha
  obtain ⟨ts, hts, hl, hp⟩ := hx hon a ha
  exact ⟨ts, hts, hl, h _ _ _ hon hts hl hp⟩

/-- That the cursor stands in the file may be taken for granted. -/
theorem Runs.on {x : Step k c α} (h : c.On file text → x.Runs file text l P) :
    x.Runs file text l P :=
  fun hon => h hon hon

theorem Runs.weaken {x : Step k c α} (h : x.Runs file text l P) : x.weaken.Runs file text l P := h

theorem Runs.moved {x : Step (k + 1) c α} (h : x.Runs file text l P) :
    x.moved.Runs file text l P := h

theorem Runs.map {f : α → β} {x : Step k c α} (h : x.Runs file text l fun ts a => Q ts (f a)) :
    (x.map f).Runs file text l Q := by
  have hread := h.andThen (r := .none) (f := fun a c' _ => Step.done c' (f a)) (Q := Q)
    fun ts a c' _ _ _ _ ha => .done (by rwa [List.append_nil])
  rwa [Loose.join_none] at hread

end

/-! The tokens may be left out. -/

section

variable {P : α → Cursor → Prop} {Q : β → Cursor → Prop}

/-- The tokens that the reader runs over lack the partners `l`, and `P` holds of what was read and
of the cursor behind. -/
def Keeps (file : String) (text : List Char) (l : Loose) (x : Step k c α)
    (P : α → Cursor → Prop) : Prop :=
  x.Runs file text l fun _ => P

theorem Keeps.done {a : α} (h : P a c) : (Step.done c a).Keeps file text .none P := Runs.done h

theorem Keeps.fail (d : Diagnostic) (c' : Cursor) :
    (Step.fail d c' : Step k c α).Keeps file text l P :=
  Runs.fail d c'

theorem Keeps.andThen {x : Step k c α}
    {f : α → (c' : Cursor) → c'.weight + k ≤ c.weight → Step j c' β}
    (hx : x.Keeps file text .none P) (hf : ∀ a c' h, P a c' → (f a c' h).Keeps file text l Q) :
    (x.andThen f).Keeps file text l Q := by
  have hread := Runs.andThen (Q := fun _ => Q) hx fun _ a c' h _ _ _ ha => hf a c' h ha
  rwa [Loose.none_join] at hread

/-- What is read first may end with the partner of a parenthesis in front of it. -/
theorem Keeps.shut {x : Step k c α}
    {f : α → (c' : Cursor) → c'.weight + k ≤ c.weight → Step j c' β}
    (hx : x.Keeps file text l P) (hf : ∀ a c' h, P a c' → (f a c' h).Keeps file text .none Q) :
    (x.andThen f).Keeps file text l Q := by
  have hread := Runs.andThen (Q := fun _ => Q) hx fun _ a c' h _ _ _ ha => hf a c' h ha
  rwa [Loose.join_none] at hread

theorem Keeps.optThen {x : Step 0 c α}
    {f : α → (c' : Cursor) → c'.weight ≤ c.weight → Step k c' β}
    (hx : x.Keeps file text .none P) (hf : ∀ a c' h, P a c' → (f a c' h).Keeps file text l Q) :
    (x.optThen f).Keeps file text l Q := by
  have hread := Runs.optThen (Q := fun _ => Q) hx fun _ a c' h _ _ _ ha => hf a c' h ha
  rwa [Loose.none_join] at hread

theorem Keeps.mono {P' : α → Cursor → Prop} {x : Step k c α} (hx : x.Keeps file text l P)
    (h : ∀ a n, P a n → P' a n) : x.Keeps file text l P' :=
  Runs.mono hx fun _ a n _ _ _ => h a n

theorem Keeps.weaken {x : Step k c α} (h : x.Keeps file text l P) :
    x.weaken.Keeps file text l P := h

theorem Keeps.map {f : α → β} {x : Step k c α} (h : x.Keeps file text l fun a => Q (f a)) :
    (x.map f).Keeps file text l Q :=
  Runs.map h

theorem Keeps.build {span : Span} {f : Node → α}
    (h : P (f ⟨c.nextId, span⟩) { c with nextId := c.nextId + 1 }) :
    (c.build span f).Keeps file text .none P :=
  Runs.build h

end

end Step

open Step (Runs Keeps)

namespace Cursor

variable {α : Type} {j : Nat} {c : Cursor} {kind : TokenKind} {d : Diagnostic} {l : Loose}

theorem loose_current (h : c.kind = kind) : loose [c.current] = kind.loose := by
  subst h
  exact Loose.join_none _

/-- The token at the cursor is read. -/
theorem take_runs (ne : c.kind ≠ .eof) (h : c.kind = kind) : (c.take ne).Runs file text kind.loose
    fun ts t _ => ts = [t] ∧ t = c.current ∧ t.span.file = file := by
  rintro hon _ ⟨⟩
  exact ⟨[c.current], ran_advance ne, loose_current h, rfl, rfl, (hon.current ne).1⟩

theorem expectOr_runs (kind : TokenKind) (d : Diagnostic) :
    (c.expectOr kind d).Runs file text kind.loose
      fun ts t _ => ts = [t] ∧ t = c.current ∧ t.kind = kind ∧ t.span.file = file := by
  unfold expectOr
  split
  · next h =>
    refine (c.take_runs _ h.1).mono ?_
    rintro ts t _ - - - ⟨hts, rfl, hfile⟩
    exact ⟨hts, rfl, h.1, hfile⟩
  · exact .fail _ _

/-- A token that is no parenthesis. -/
theorem expectOr_keeps (hkind : kind.NoParen) :
    (c.expectOr kind d).Keeps file text .none fun _ _ => True := by
  have hread : (c.expectOr kind d).Runs file text _ _ := c.expectOr_runs kind d
  rw [hkind] at hread
  exact hread.mono fun _ _ _ _ _ _ _ => trivial

section

variable {P : α → Cursor → Prop}
  {f : Token → (c' : Cursor) → c'.weight + 1 ≤ c.weight → Step j c' α}

theorem keeps_token (hkind : kind.NoParen) (hf : ∀ t c' h, (f t c' h).Keeps file text l P) :
    ((c.expectOr kind d).andThen f).Keeps file text l P :=
  (c.expectOr_keeps hkind).andThen fun t c' h _ => hf t c' h

/-- What begins with an opening parenthesis. -/
theorem keeps_open (hf : ∀ t c' h, (f t c' h).Keeps file text ⟨1, 0⟩ P) :
    ((c.expectOr .openParen d).andThen f).Keeps file text .none P :=
  Runs.andThen (Q := fun _ => P) (c.expectOr_runs .openParen d)
    fun _ t c' h _ _ _ _ => hf t c' h

/-- What begins with a closing parenthesis. -/
theorem keeps_close (hf : ∀ t c' h, (f t c' h).Keeps file text .none P) :
    ((c.expectOr .closeParen d).andThen f).Keeps file text ⟨1, 0⟩ P :=
  Runs.andThen (Q := fun _ => P) (c.expectOr_runs .closeParen d)
    fun _ t c' h _ _ _ _ => hf t c' h

end

section

variable {P : α → Prop} {f : Token → α}

/-- A token that is no parenthesis is read last. -/
theorem keeps_last (hkind : kind.NoParen) (hf : ∀ t, P (f t)) :
    ((c.expectOr kind d).map f).Keeps file text .none fun a _ => P a :=
  .map ((c.expectOr_keeps hkind).mono fun t _ _ => hf t)

/-- A closing parenthesis is read last. -/
theorem keeps_lastClose (hf : ∀ t, P (f t)) :
    ((c.expectOr .closeParen d).map f).Keeps file text ⟨1, 0⟩ fun a _ => P a :=
  .map ((c.expectOr_runs .closeParen d).mono fun _ t _ _ _ _ _ => hf t)

end

/-- A token of any given kind is read last. -/
theorem keeps_lastKind {P : α → Prop} {f : Token → α} (ne : kind ≠ .eof) (hf : ∀ t, P (f t)) :
    ((c.expectKind kind d).map f).Keeps file text kind.loose fun a _ => P a := by
  refine Keeps.map ?_
  unfold expectKind
  split
  · next h =>
    exact fun _ t _ => ⟨[c.current], ran_advance (h ▸ ne), loose_current h, hf t⟩
  · exact .fail _ _

theorem accept_keeps (hkind : kind.NoParen := by decide) (ne : kind ≠ .eof := by decide) :
    (c.accept kind).Keeps file text .none fun _ _ => True := by
  unfold accept
  split
  · next h =>
    exact fun _ _ _ => ⟨[c.current], ran_advance (h ▸ ne), (loose_current h).trans hkind, trivial⟩
  · exact .done trivial

/-- An opening parenthesis may come first. Its partner comes where it came. -/
theorem keeps_acceptOpen {P : α → Cursor → Prop}
    {f : Bool → (c' : Cursor) → c'.weight + 0 ≤ c.weight → Step j c' α}
    (hf : ∀ b c' h, (f b c' h).Keeps file text (if b then ⟨1, 0⟩ else .none) P) :
    ((c.accept .openParen).andThen f).Keeps file text .none P := by
  unfold accept
  split
  · next h =>
    have hopen : (⟨.ok true, c.advance, fun _ _ => weight_advance_le c⟩ : Step 0 c Bool).Runs file
        text ⟨0, 1⟩ fun _ b _ => b = true := by
      rintro - _ ⟨⟩
      exact ⟨[c.current], ran_advance (by rw [h]; decide), loose_current h, rfl⟩
    refine Runs.andThen (Q := fun _ => P) (r := ⟨1, 0⟩) hopen ?_
    rintro _ _ c' h - - - rfl
    exact hf true c' h
  · exact Keeps.andThen (P := fun b _ => b = false) (.done rfl) fun b c' h hb => by
      subst hb
      exact hf false c' h

end Cursor

open Cursor (keeps_token keeps_last keeps_open keeps_lastClose)

/-! ### Types, parameters and patterns -/

theorem noParen_of_primitiveTy? {k : TokenKind} {ty : Ty} (h : primitiveTy? k = some ty) :
    k.NoParen := by
  cases k <;> cases h <;> rfl

theorem readPrimitiveTy_keeps (c : Cursor) :
    (readPrimitiveTy c).Keeps file text .none fun _ _ => True := by
  unfold readPrimitiveTy
  split
  · next ty h =>
    have ne : c.kind ≠ .eof := by
      rintro he
      simp [he, primitiveTy?] at h
    have htake : (c.take ne).Runs file text _ _ := c.take_runs ne rfl
    rw [noParen_of_primitiveTy? h] at htake
    exact .map (htake.mono fun _ _ _ _ _ _ _ => trivial)
  · exact .fail _ _

mutual

theorem readTy_keeps (c : Cursor) (power : Power) :
    (readTy c power).Keeps file text .none fun _ _ => True := by
  rw [readTy]
  exact (readTyHead_keeps c).andThen fun ty c' _ _ => readTySuffixes_keeps c' power ty
termination_by 4 * c.weight + 3
decreasing_by all_goals omega

theorem readTyHead_keeps (c : Cursor) :
    (readTyHead c).Keeps file text .none fun _ _ => True := by
  rw [readTyHead]
  split
  iterate 5 exact readPrimitiveTy_keeps c
  · exact readNamedTy_keeps c
  · exact readFnTy_keeps c
  · exact .fail _ _
termination_by 4 * c.weight + 2
decreasing_by all_goals omega

theorem readNamedTy_keeps (c : Cursor) :
    (readNamedTy c).Keeps file text .none fun _ _ => True := by
  rw [readNamedTy]
  refine keeps_token rfl fun name c' _ => ?_
  split
  · refine Keeps.weaken (keeps_token rfl fun _ c' _ => ?_)
    refine (readTy_keeps c' .default).andThen fun inner c' _ _ => ?_
    exact keeps_last rfl fun _ => trivial
  · exact .done trivial
termination_by 4 * c.weight + 1
decreasing_by all_goals omega

theorem readFnTy_keeps (c : Cursor) :
    (readFnTy c).Keeps file text .none fun _ _ => True := by
  rw [readFnTy]
  refine keeps_token rfl fun _ c' _ => keeps_open fun _ c' _ => ?_
  refine (readTys_keeps c').shut fun params c' _ _ => ?_
  refine (Cursor.accept_keeps).andThen fun arrow c' _ _ => ?_
  split
  · exact .map (readTy_keeps c' .default).weaken
  · exact .done trivial
termination_by 4 * c.weight + 1
decreasing_by all_goals omega

theorem readTys_keeps (c : Cursor) : (readTys c).Keeps file text ⟨1, 0⟩ fun _ _ => True := by
  rw [readTys]
  split
  · exact keeps_lastClose fun _ => trivial
  · refine (readTy_keeps c .default).andThen fun ty c' _ _ => ?_
    refine (Cursor.accept_keeps).andThen fun comma c' _ _ => ?_
    split
    · exact .map (readTys_keeps c')
    · exact keeps_lastClose fun _ => trivial
termination_by 4 * c.weight + 4
decreasing_by all_goals omega

theorem readTySuffixes_keeps (c : Cursor) (power : Power) (ty : Ty) :
    (readTySuffixes c power ty).Keeps file text .none fun _ _ => True := by
  rw [readTySuffixes]
  split
  · refine Keeps.weaken (keeps_token rfl fun _ c' _ => keeps_token rfl fun _ c' _ => ?_)
    exact readTySuffixes_keeps c' power _
  · exact .done trivial
termination_by 4 * c.weight
decreasing_by all_goals omega

end

theorem readReturnTy_keeps (c : Cursor) :
    (readReturnTy c).Keeps file text .none fun _ _ => True := by
  unfold readReturnTy
  refine (Cursor.accept_keeps).andThen fun arrow c' _ _ => ?_
  split
  · exact (readTy_keeps c' .default).weaken
  · exact .done trivial

theorem readParamList_keeps (c : Cursor) :
    (readParamList c).Keeps file text ⟨1, 0⟩ fun _ _ => True := by
  rw [readParamList]
  split
  · exact keeps_lastClose fun _ => trivial
  · refine keeps_token rfl fun name c' _ => keeps_token rfl fun _ c' _ => ?_
    refine (readTy_keeps c' .default).andThen fun ty c' _ _ => ?_
    refine (Cursor.accept_keeps).andThen fun comma c' _ _ => ?_
    split
    · exact .map (readParamList_keeps c')
    · exact keeps_lastClose fun _ => trivial
termination_by c.weight
decreasing_by all_goals omega

theorem readParams_keeps (c : Cursor) :
    (readParams c).Keeps file text .none fun _ _ => True := by
  unfold readParams
  exact keeps_open fun _ c' _ => readParamList_keeps c'

theorem readArmPattern_keeps (c : Cursor) :
    (readArmPattern c).Keeps file text .none fun _ _ => True := by
  unfold readArmPattern
  split
  · refine keeps_token rfl fun _ c' _ => keeps_open fun _ c' _ => ?_
    exact keeps_token rfl fun name c' _ => keeps_lastClose fun _ => trivial
  · exact keeps_last rfl fun _ => trivial
  · dsimp only
    split
    · exact keeps_last rfl fun _ => trivial
    · exact .fail _ _

end MgLang
