import MgLang.Grammar.Cursor
import MgLang.Proofs.Printing
/-!
# Readers that succeed

`Step.Reads` says that a reader succeeds, what it reads, and which lexemes it leaves. Only the
lexemes before a cursor decide that, so a printed text is read one lexeme at a time: a mark is
stepped over (`Cursor.reads_fixed`), a name is read (`Cursor.reads_name`), and a mark that may be
left out is accepted or passed by (`Cursor.reads_accept`, `Cursor.reads_decline`).
-/

namespace MgLang

/-- The kind of the first lexeme, the end mark if there is none. -/
def headKind : List Lexeme → TokenKind
  | [] => .eof
  | l :: _ => l.kind

theorem headKind_fixed_ne {k k' : TokenKind} (ls : List Lexeme) (h : k ≠ k' := by decide) :
    headKind (.fixed k :: ls) ≠ k' := h

theorem headKind_name_ne {k : TokenKind} (value : String) (ls : List Lexeme)
    (h : .identifier ≠ k := by decide) : headKind (.name value :: ls) ≠ k := h

namespace Cursor

/-- The lexemes still to be read. -/
def shows (c : Cursor) : List Lexeme := c.rest.map Token.lexeme

variable {c : Cursor} {l : Lexeme} {ls : List Lexeme}

theorem kind_of_shows (h : c.shows = ls) : c.kind = headKind ls := by
  subst h
  unfold kind current shows
  cases c.rest <;> rfl

theorem lexeme_current (h : c.shows = l :: ls) : c.current.lexeme = l := by
  unfold shows at h
  unfold current
  cases hr : c.rest with
  | nil => rw [hr] at h; cases h
  | cons t r => rw [hr] at h; exact (List.cons.inj h).1

theorem shows_advance (h : c.shows = l :: ls) : c.advance.shows = ls := by
  unfold shows at h
  unfold advance
  cases hr : c.rest with
  | nil => rw [hr] at h; cases h
  | cons t r => rw [hr] at h; exact (List.cons.inj h).2

end Cursor

namespace Step

variable {α β : Type} {j k : Nat} {c : Cursor} {P : α → Prop} {Q : β → Prop}
  {ls rest : List Lexeme}

/-- The reader succeeds and leaves the lexemes `ls`, and what it read satisfies `P`. -/
def Reads (x : Step k c α) (ls : List Lexeme) (P : α → Prop) : Prop :=
  ∃ a, x.outcome = .ok a ∧ x.next.shows = ls ∧ P a

theorem Reads.done {a : α} (hc : c.shows = ls) (h : P a) : (done c a).Reads ls P :=
  ⟨a, rfl, hc, h⟩

theorem Reads.andThen {x : Step k c α}
    {f : α → (c' : Cursor) → c'.weight + k ≤ c.weight → Step j c' β} (hx : x.Reads ls P)
    (hf : ∀ a c' h, c'.shows = ls → P a → (f a c' h).Reads rest Q) :
    (x.andThen f).Reads rest Q := by
  obtain ⟨out, next, progress⟩ := x
  obtain ⟨a, ho, hn, ha⟩ := hx
  cases ho
  exact hf a next (progress a rfl) hn ha

theorem Reads.optThen {x : Step 0 c α}
    {f : α → (c' : Cursor) → c'.weight ≤ c.weight → Step k c' β} (hx : x.Reads ls P)
    (hf : ∀ a c' h, c'.shows = ls → P a → (f a c' h).Reads rest Q) :
    (x.optThen f).Reads rest Q := by
  obtain ⟨out, next, progress⟩ := x
  obtain ⟨a, ho, hn, ha⟩ := hx
  cases ho
  exact hf a next (progress a rfl) hn ha

theorem Reads.mono {P' : α → Prop} {x : Step k c α} (hx : x.Reads ls P) (h : ∀ a, P a → P' a) :
    x.Reads ls P' := by
  obtain ⟨a, ho, hn, ha⟩ := hx
  exact ⟨a, ho, hn, h a ha⟩

theorem Reads.weaken {x : Step k c α} (h : x.Reads ls P) : x.weaken.Reads ls P := h

theorem reads_map {f : α → β} {x : Step k c α} :
    (x.map f).Reads ls Q ↔ x.Reads ls fun a => Q (f a) := by
  constructor
  · obtain ⟨out, next, progress⟩ := x
    rintro ⟨b, ho, hn, hb⟩
    cases out with
    | error d => cases ho
    | ok a => cases ho; exact ⟨a, rfl, hn, hb⟩
  · exact fun h => h.andThen fun _ _ _ hc ha => .done hc ha

/-- Something that is there. -/
theorem Reads.present {x : Step k c α} (h : x.Reads ls P) :
    (x.weaken.map some).Reads ls fun o => ∃ a, o = some a ∧ P a :=
  reads_map.2 (h.mono fun a ha => ⟨a, rfl, ha⟩)

theorem Reads.build {span : Span} {f : Node → α} (hc : c.shows = ls) (h : ∀ n, P (f n)) :
    (c.build span f).Reads ls P :=
  ⟨_, rfl, hc, h _⟩

end Step

open Step (Reads)

namespace Cursor

variable {α : Type} {j : Nat} {c : Cursor} {k : TokenKind} {ls rest : List Lexeme} {P : α → Prop}

theorem reads_take {l : Lexeme} (hc : c.shows = l :: ls) (ne : c.kind ≠ .eof) :
    (c.take ne).Reads ls (·.lexeme = l) :=
  ⟨_, rfl, shows_advance hc, lexeme_current hc⟩

theorem reads_expectOr {l : Lexeme} (hc : c.shows = l :: ls) (ne : l.kind ≠ .eof)
    (d : Diagnostic) : (c.expectOr l.kind d).Reads ls (·.lexeme = l) := by
  have hk : c.kind = l.kind := kind_of_shows hc
  unfold expectOr
  rw [dif_pos ⟨hk, ne⟩]
  exact reads_take hc _

/-- A mark or a reserved word is stepped over. -/
theorem reads_fixed {d : Diagnostic}
    {f : Token → (c' : Cursor) → c'.weight + 1 ≤ c.weight → Step j c' α}
    (hc : c.shows = .fixed k :: ls)
    (hf : ∀ t c' h, c'.shows = ls → (f t c' h).Reads rest P)
    (ne : k ≠ .eof := by decide) : ((c.expectOr k d).andThen f).Reads rest P :=
  (reads_expectOr hc ne d).andThen fun t c' h hc' _ => hf t c' h hc'

/-- A name is read as it was written. -/
theorem reads_name {d : Diagnostic} {name : String}
    {f : Token → (c' : Cursor) → c'.weight + 1 ≤ c.weight → Step j c' α}
    (hc : c.shows = .name name :: ls)
    (hf : ∀ t c' h, c'.shows = ls → t.value = name → (f t c' h).Reads rest P) :
    ((c.expectOr .identifier d).andThen f).Reads rest P :=
  (reads_expectOr hc TokenKind.noConfusion d).andThen fun t c' h hc' ht =>
    hf t c' h hc' (congrArg Lexeme.value ht)

/-- A token of a kind that may be the end mark is stepped over. -/
theorem reads_expectKind {d : Diagnostic} (hc : c.shows = .fixed k :: ls) :
    (c.expectKind k d).Reads ls fun _ => True := by
  have hk : c.kind = k := kind_of_shows hc
  unfold expectKind
  rw [if_pos hk]
  exact ⟨_, rfl, shows_advance hc, trivial⟩

/-- A mark that may be left out is seen if it is there. -/
theorem accept_reads (b : Bool) (hc : c.shows = (if b then [.fixed k] else []) ++ ls)
    (hk : b = false → headKind ls ≠ k) : (c.accept k).Reads ls (· = b) := by
  unfold accept
  cases b with
  | true =>
    have hck : c.kind = k := kind_of_shows hc
    rw [if_pos hck]
    exact ⟨true, rfl, shows_advance hc, rfl⟩
  | false =>
    have hck : c.kind = headKind ls := kind_of_shows hc
    rw [if_neg (hck ▸ hk rfl)]
    exact .done hc rfl

/-- A mark that is there is accepted. -/
theorem reads_accept
    {f : Bool → (c' : Cursor) → c'.weight + 0 ≤ c.weight → Step j c' α}
    (hc : c.shows = .fixed k :: ls) (hf : ∀ c' h, c'.shows = ls → (f true c' h).Reads rest P) :
    ((c.accept k).andThen f).Reads rest P :=
  (accept_reads true hc Bool.noConfusion).andThen fun _ c' h hc' hb => hb ▸ hf c' h hc'

/-- A mark that is not there is passed by. -/
theorem reads_decline
    {f : Bool → (c' : Cursor) → c'.weight + 0 ≤ c.weight → Step j c' α}
    (hc : c.shows = ls) (hk : headKind ls ≠ k)
    (hf : ∀ c' h, c'.shows = ls → (f false c' h).Reads rest P) :
    ((c.accept k).andThen f).Reads rest P :=
  (accept_reads false hc fun _ => hk).andThen fun _ c' h hc' hb => hb ▸ hf c' h hc'

end Cursor

end MgLang
