/-!
# Places in a source text

A `Span` is a half-open range of byte offsets in a named file. Every token, tree node and
diagnostic carries one.

The offsets here are exact. They are kept in words of 32 bits (`Position`), and what does not fit is
cut off where a span is made (`Lexer::span_of`). `Span.stored` is what remains. A span is moved by
adding words (`parse_expression_source`), and as long as no such sum overflows, or if sums wrap
around, this comes to the same as to cut off once at the end (`stored_shift_stored`). In the first
2^32 bytes of a file nothing is cut off at all (`stored_eq_self`).
-/

namespace MgLang

/-- The bytes from `start` up to, but not including, `stop` of the file `file`. -/
@[ext] structure Span where
  /-- The name the file was loaded under. -/
  file : String
  /-- The offset of the first byte. -/
  start : Nat
  /-- The offset just past the last byte. -/
  stop : Nat
deriving DecidableEq, Repr, Inhabited

namespace Span

/-- The span of things that stand in no file, such as the members of a built-in namespace
(`Span::null`). -/
def null : Span := ⟨"<null>", 0, 0⟩

/-- The empty span at the very beginning of a file (`Span::file_start`). -/
def fileStart (file : String) : Span := ⟨file, 0, 0⟩

/-- The same range `k` bytes later. -/
def shift (s : Span) (k : Nat) : Span := ⟨s.file, s.start + k, s.stop + k⟩

/-- From the start of `a` to the end of `b`. -/
def cover (a b : Span) : Span := ⟨a.file, a.start, b.stop⟩

/-- A cursor at `offset` of `file` touches the span (`Span::contains`). The end counts as inside, so
a cursor right after a name still hits the name. -/
def Touches (s : Span) (file : String) (offset : Nat) : Prop :=
  s.file = file ∧ s.start ≤ offset ∧ offset ≤ s.stop

instance (s : Span) (file : String) (offset : Nat) : Decidable (s.Touches file offset) :=
  inferInstanceAs (Decidable (_ ∧ _ ∧ _))

@[simp, grind =] theorem file_shift (s : Span) (k : Nat) : (s.shift k).file = s.file := rfl

@[simp, grind =] theorem start_shift (s : Span) (k : Nat) : (s.shift k).start = s.start + k := rfl

@[simp, grind =] theorem stop_shift (s : Span) (k : Nat) : (s.shift k).stop = s.stop + k := rfl

/-! ### Offsets in words -/

/-- The span as it is kept, with its offsets in words of 32 bits. -/
def stored (s : Span) : Span := ⟨s.file, s.start % UInt32.size, s.stop % UInt32.size⟩

@[simp] theorem file_stored (s : Span) : s.stored.file = s.file := rfl

/-- Offsets that fit into words are kept as they are. -/
theorem stored_eq_self {s : Span} (hstart : s.start < UInt32.size) (hstop : s.stop < UInt32.size) :
    s.stored = s := by
  rw [stored, Nat.mod_eq_of_lt hstart, Nat.mod_eq_of_lt hstop]

@[simp] theorem stored_stored (s : Span) : s.stored.stored = s.stored :=
  stored_eq_self (Nat.mod_lt _ (by decide)) (Nat.mod_lt _ (by decide))

/-- To move words is to move what they were cut off from. -/
theorem stored_shift_stored (s : Span) (k : Nat) :
    (s.stored.shift k).stored = (s.shift k).stored := by
  simp only [stored, shift, Nat.mod_add_mod]

theorem stored_cover_stored (a b : Span) :
    (a.stored.cover b.stored).stored = (a.cover b).stored := by
  simp only [stored, cover, Nat.mod_mod]

end Span

end MgLang
