import MgLang.Proofs.Advancing
import MgLang.Proofs.Layout
import MgLang.Proofs.Regions
import MgLang.Proofs.Spots
import Mathlib.Data.List.Forall2
/-!
# Readers stay in their file

Where a reader says that a text is wrong, there is such a place in the file, and so are the places
that it gives to what it reads (`parseSource_stays`). These places are nested like the tree that is
read (`parseSource_nested`).

A place is made from the tokens that have been read, so it ends behind its start only because tokens
are in order. The reader's place is known by the end of the last token: what is read stands in a
row behind the one from before, up to the one from afterwards (`Step.Stays`, `Row`).
-/

namespace MgLang

/-! ### Files -/

/-- A file of some number of bytes. -/
structure Extent where
  file : String
  size : Nat

/-- The place is in the file. -/
structure Extent.Holds (x : Extent) (s : Span) : Prop where
  file : s.file = x.file
  ordered : s.start ≤ s.stop
  within : s.stop ≤ x.size

/-- The token is in the file, and so is the body of an interpolated string, behind the two
characters that begin it. -/
structure Extent.Bears (x : Extent) (t : Token) : Prop where
  holds : x.Holds t.span
  body : t.kind = .interpolated → t.span.start + 2 + byteLength t.value.toList ≤ t.span.stop

/-- What is in a part of the file is in the file. -/
theorem Extent.Holds.mono {x y : Extent} {s : Span} (h : y.Holds s) (hfile : y.file = x.file)
    (hsize : y.size ≤ x.size) : x.Holds s :=
  ⟨h.file.trans hfile, h.ordered, Nat.le_trans h.within hsize⟩

namespace Cursor

/-- The tokens that are left are in the file, one behind the other, and behind the last that has
been read. -/
structure Inside (c : Cursor) (x : Extent) : Prop where
  file : c.file = x.file
  tokens : ∀ t ∈ c.rest, x.Bears t ∧ c.lastStop ≤ t.span.start ∧ t.span.stop ≤ c.stop
  nonempty : ∀ t ∈ c.rest, t.span.start < t.span.stop
  ordered : c.rest.Pairwise fun a b => a.span.stop ≤ b.span.start
  last : c.lastStop ≤ c.stop
  stop : c.stop ≤ x.size

variable {c c' : Cursor} {x : Extent}

namespace Inside

/-- The token at the cursor is in the file, also if it is the end mark. -/
theorem current (h : c.Inside x) : x.Bears c.current ∧ c.lastStop ≤ c.start := by
  unfold start Cursor.current
  split
  · exact ⟨⟨⟨h.file, Nat.le_refl _, h.stop⟩, fun hk => by cases hk⟩, h.last⟩
  · next t r hr =>
    have ht := h.tokens t (hr ▸ List.mem_cons_self)
    exact ⟨ht.1, ht.2.1⟩

theorem advance (h : c.Inside x) : c.advance.Inside x := by
  unfold Cursor.advance
  split
  · exact h
  · next t r hr =>
    have htokens := h.tokens
    have hnonempty := h.nonempty
    have hordered := h.ordered
    rw [hr] at htokens hnonempty hordered
    obtain ⟨ht, hr⟩ := List.forall_mem_cons.1 htokens
    obtain ⟨hbehind, hordered⟩ := List.pairwise_cons.1 hordered
    exact ⟨h.file, fun u hu => ⟨(hr u hu).1, hbehind u hu, (hr u hu).2.2⟩,
      (List.forall_mem_cons.1 hnonempty).2, hordered, ht.2.2, h.stop⟩

theorem lastStop_le_advance (h : c.Inside x) : c.lastStop ≤ c.advance.lastStop := by
  unfold Cursor.advance
  split
  · exact Nat.le_refl _
  · next t r hr =>
    have ht := h.tokens t (hr ▸ List.mem_cons_self)
    exact Nat.le_trans ht.2.1 ht.1.holds.ordered

/-- A token that is no end mark is not empty. -/
theorem lt_of_ne_eof (h : c.Inside x) (hk : c.kind ≠ .eof) : c.start < c.current.span.stop := by
  cases hr : c.rest with
  | nil => simp [kind, Cursor.current, hr, Token.endMark] at hk
  | cons t r =>
    have hcurrent : c.current = t := by rw [Cursor.current, hr]
    rw [start, hcurrent]
    exact h.nonempty t (hr ▸ List.mem_cons_self)

/-- A token that is no end mark is the last token behind it. -/
theorem stop_le_advance (h : c.kind ≠ .eof) : c.current.span.stop ≤ c.advance.lastStop := by
  unfold Cursor.advance Cursor.current
  split
  · next hr => simp [kind, Cursor.current, hr, Token.endMark] at h
  · exact Nat.le_refl _

theorem start_le_advance (h : c.Inside x) : c.start ≤ c.advance.start := by
  cases hr : c.rest with
  | nil =>
    have hadvance : c.advance = c := by rw [Cursor.advance, hr]
    exact Nat.le_of_eq (congrArg start hadvance.symm)
  | cons t r =>
    have ht := h.tokens t (hr ▸ List.mem_cons_self)
    have hstart : c.start = t.span.start := by rw [start, Cursor.current, hr]
    have hadvance : c.advance = { c with rest := r, lastStop := t.span.stop } := by
      rw [Cursor.advance, hr]
    have hlast := h.advance.current.2
    rw [hadvance] at hlast ⊢
    rw [hstart]
    exact Nat.le_trans ht.1.holds.ordered hlast

theorem start_le (h : c.Inside x) (hc : c.LeadsTo c') : c.start ≤ c'.start := by
  induction hc with
  | refl => exact Nat.le_refl _
  | advance _ ih => exact Nat.le_trans h.start_le_advance (ih h.advance)

/-- From somewhere before the end of the last token to that end, around a row. -/
theorem spanFrom (h : c.Inside x) {lo start : Nat} {rs : List Region} (hlo : lo ≤ start)
    (hlt : start < c.lastStop) (hrs : Row x.file start rs c.lastStop) :
    Row x.file lo [.mk (c.spanFrom start) rs] c.lastStop :=
  .one h.file hlo hlt (Nat.le_refl _) hrs

end Inside

end Cursor

/-! ### The tokens of a text -/

section

variable {file : String} {text : List Char}

theorem TokenStream.shift_zero (s : TokenStream) : s.shift 0 = s := by
  have ht : s.tokens.map (·.shift 0) = s.tokens :=
    List.map_id'' (fun _ => rfl) s.tokens
  rw [shift, ht]
  rfl

/-- The tokens of a text that is part of a file are in the file. -/
theorem inside_of_tokenize {s : TokenStream} (h : tokenize file text = .ok s) {x : Extent}
    (hfile : file = x.file) {k : Nat} (hk : k + byteLength text ≤ x.size) (n : Nat) :
    (Cursor.ofStream (s.shift k) n).Inside x := by
  unfold tokenize at h
  split at h
  · cases h
  next tokens htokens =>
  cases h
  have hcut := cut_of_tokensFrom htokens
  obtain ⟨hwithin, hordered⟩ := hcut.ordered
  have hslices := hcut.slices [] rfl
  refine ⟨hfile, List.forall_mem_map.2 fun t ht => ?_, List.forall_mem_map.2 fun t ht => ?_,
    List.pairwise_map.2 ?_, Nat.zero_le _, ?_⟩
  · obtain ⟨htfile, hlt, piece, after, ⟨front, -, -, hstop⟩, hword⟩ := hslices t ht
    have hin := (hwithin t ht).2
    refine ⟨⟨⟨htfile.trans hfile, ?_, ?_⟩, fun hk => ?_⟩, Nat.zero_le _, ?_⟩
    · simp only [Token.shift, Span.start_shift, Span.stop_shift]
      omega
    · simp only [Token.shift, Span.stop_shift]
      omega
    · have hk : t.kind = .interpolated := hk
      rw [hk] at hword
      have hmarks : '$'.utf8Size = 1 ∧ '"'.utf8Size = 1 := ⟨rfl, rfl⟩
      rw [hword.interpolated_body] at hstop
      simp only [byteLength_cons, byteLength_append, byteLength_nil, hmarks] at hstop
      simp only [Token.shift, Span.start_shift, Span.stop_shift]
      omega
    · simp only [Token.shift, Span.stop_shift, Cursor.ofStream, TokenStream.shift]
      omega
  · have hlt := (hslices t ht).2.1
    simp only [Token.shift, Span.start_shift, Span.stop_shift]
    omega
  · refine hordered.imp fun {a b} h => ?_
    simp only [Token.shift, Span.start_shift, Span.stop_shift]
    omega
  · simp only [Cursor.ofStream, TokenStream.shift]
    omega

/-- A text is read from where it stands in the file. -/
theorem le_start_ofStream (s : TokenStream) (k n : Nat) :
    k ≤ (Cursor.ofStream (s.shift k) n).start := by
  obtain ⟨file, tokens, stop⟩ := s
  cases tokens with
  | nil => exact Nat.le_add_left k stop
  | cons t r => exact Nat.le_add_left k t.span.start

/-- A character that starts no token is in the text. It is counted from the start of the text. -/
theorem holds_of_tokenize_error {d : Diagnostic} (h : tokenize file text = .error d) {x : Extent}
    (hfile : file = x.file) (hsize : byteLength text ≤ x.size) : x.Holds d.span := by
  obtain ⟨s, hs, -⟩ | ⟨before, c, behind, rfl, -, -, he⟩ := tokenize_lossless file text
  · rw [h] at hs
    cases hs
  · rw [h] at he
    cases he
    simp only [byteLength_append, byteLength_cons] at hsize
    refine ⟨hfile, Nat.le_add_right _ _, ?_⟩
    dsimp only
    omega

end

/-! ### How a reader stays -/

namespace Step

variable {α β : Type} {j k : Nat} {c : Cursor} {x : Extent} {P : Nat → α → Prop}
  {Q : Nat → β → Prop}

/-- What the reader says to be wrong is in the file. If it succeeds, it never goes back, and what it
reads satisfies `P` together with the end of the last token. -/
def Stays (s : Step k c α) (x : Extent) (P : Nat → α → Prop) : Prop :=
  c.Inside x → (∀ d, s.outcome = .error d → x.Holds d.span) ∧
    ∀ a, s.outcome = .ok a →
      s.next.Inside x ∧ c.lastStop ≤ s.next.lastStop ∧ P s.next.lastStop a

namespace Stays

theorem done {a : α} (h : c.Inside x → P c.lastStop a) : (Step.done c a).Stays x P := by
  intro hc
  refine ⟨fun _ hd => (by cases hd), ?_⟩
  rintro _ ⟨⟩
  exact ⟨hc, Nat.le_refl _, h hc⟩

theorem fail {d : Diagnostic} {c' : Cursor} (h : c.Inside x → x.Holds d.span) :
    (Step.fail d c' : Step k c α).Stays x P := by
  intro hc
  refine ⟨?_, fun _ ha => by cases ha⟩
  rintro _ ⟨⟩
  exact h hc

theorem andThen {s : Step k c α} {f : α → (c' : Cursor) → c'.weight + k ≤ c.weight → Step j c' β}
    (hs : s.Stays x P)
    (hf : ∀ a c' h, c'.Inside x → c.lastStop ≤ c'.lastStop → P c'.lastStop a →
      (f a c' h).Stays x Q) :
    (s.andThen f).Stays x Q := by
  intro hc
  obtain ⟨out, next, progress⟩ := s
  obtain ⟨herror, hok⟩ := hs hc
  cases out with
  | error d =>
    refine ⟨?_, fun _ hb => by cases hb⟩
    rintro _ ⟨⟩
    exact herror d rfl
  | ok a =>
    obtain ⟨hin, hle, ha⟩ := hok a rfl
    obtain ⟨herror', hok'⟩ := hf a next (progress a rfl) hin hle ha hin
    refine ⟨herror', fun b hb => ?_⟩
    obtain ⟨hin', hle', hb⟩ := hok' b hb
    exact ⟨hin', Nat.le_trans hle hle', hb⟩

/-- What may be read first only steps over tokens, so the next token is no earlier one. -/
theorem behindOpt {s : Step 0 c α} {f : α → (c' : Cursor) → c'.weight ≤ c.weight → Step k c' β}
    (hs : s.Stays x P) (ha : s.Advances)
    (hf : ∀ a c' h, c.start ≤ c'.start → (f a c' h).Stays x Q) : (s.optThen f).Stays x Q := by
  intro hc
  have hstart := hc.start_le ha
  obtain ⟨out, next, progress⟩ := s
  obtain ⟨herror, hok⟩ := hs hc
  cases out with
  | error d =>
    refine ⟨?_, fun _ hb => by cases hb⟩
    rintro _ ⟨⟩
    exact herror d rfl
  | ok a =>
    obtain ⟨hin, hle, -⟩ := hok a rfl
    obtain ⟨herror', hok'⟩ := hf a next (progress a rfl) hstart hin
    refine ⟨herror', fun b hb => ?_⟩
    obtain ⟨hin', hle', hb⟩ := hok' b hb
    exact ⟨hin', Nat.le_trans hle hle', hb⟩

theorem mono {P' : Nat → α → Prop} {s : Step k c α} (hs : s.Stays x P)
    (h : ∀ hi a, c.lastStop ≤ hi → P hi a → P' hi a) : s.Stays x P' := by
  intro hc
  obtain ⟨herror, hok⟩ := hs hc
  refine ⟨herror, fun a ha => ?_⟩
  obtain ⟨hin, hle, ha⟩ := hok a ha
  exact ⟨hin, hle, h _ a hle ha⟩

theorem weaken {s : Step k c α} (h : s.Stays x P) : s.weaken.Stays x P := h

theorem moved {s : Step (k + 1) c α} (h : s.Stays x P) : s.moved.Stays x P := h

theorem map {f : α → β} {s : Step k c α} (h : s.Stays x fun hi a => Q hi (f a)) :
    (s.map f).Stays x Q :=
  h.andThen fun _ _ _ _ _ ha => .done fun _ => ha

theorem build {span : Span} {f : Node → α} (h : c.Inside x → ∀ n, P c.lastStop (f ⟨n, span⟩)) :
    (c.build span f).Stays x P := by
  intro hc
  refine ⟨fun _ hd => (by cases hd), ?_⟩
  rintro _ ⟨⟩
  exact ⟨⟨hc.file, hc.tokens, hc.nonempty, hc.ordered, hc.last, hc.stop⟩, Nat.le_refl _, h hc _⟩

/-- A reading of another text that is in a part of the file. -/
theorem inside {inner : Cursor} {s : Step k inner α} {y : Extent} (hs : s.Stays y P)
    (hfile : y.file = x.file) (hsize : y.size ≤ x.size) (h : c.Inside x → inner.Inside y) :
    (Step.inside c s).Stays x fun _ a => ∃ hi ≤ y.size, P hi a := by
  intro hc
  obtain ⟨herror, hok⟩ := hs (h hc)
  refine ⟨fun d hd => (herror d hd).mono hfile hsize, fun a ha => ?_⟩
  obtain ⟨hin, -, ha⟩ := hok a ha
  exact ⟨⟨hc.file, hc.tokens, hc.nonempty, hc.ordered, hc.last, hc.stop⟩, Nat.le_refl _, _,
    Nat.le_trans hin.last hin.stop, ha⟩

/-- Something that is there. -/
theorem present {P : Nat → Option α → Prop} {s : Step k c α}
    (h : s.Stays x fun hi a => P hi (some a)) : (s.weaken.map some).Stays x P :=
  .map h.weaken

/-- The cursor is in the file where the reader begins. -/
theorem begun {s : Step k c α} (h : c.Inside x → s.Stays x P) : s.Stays x P :=
  fun hc => h hc hc

end Stays

end Step

open Step (Stays)

/-! ### Tokens -/

namespace Cursor

variable {c : Cursor} {x : Extent}

/-- The token has been read at the cursor, and the last token that has been read ends at `hi`. -/
structure Reads (c : Cursor) (x : Extent) (hi : Nat) (t : Token) : Prop where
  eq : t = c.current
  bears : x.Bears t
  lastStop_le : c.lastStop ≤ t.span.start
  nonempty : t.span.start < t.span.stop
  le_hi : t.span.stop ≤ hi

namespace Reads

variable {hi : Nat} {t : Token}

/-- The reader was at the token. -/
theorem start_eq (h : c.Reads x hi t) : t.span.start = c.start := by
  rw [start, ← h.eq]

/-- The token that was read starts before the end of the last one. -/
theorem start_lt (h : c.Reads x hi t) : t.span.start < hi :=
  Nat.lt_of_lt_of_le h.nonempty h.le_hi

/-- The token takes up a region from where the reader was. -/
theorem leafAt (h : c.Reads x hi t) : Row x.file c.start [.leaf t.span] hi :=
  .one h.bears.holds.file (Nat.le_of_eq h.start_eq.symm) h.nonempty h.le_hi
    (.nil (Nat.le_of_lt h.nonempty))

/-- The token takes up a region behind the one before. -/
theorem leaf (h : c.Reads x hi t) : Row x.file c.lastStop [.leaf t.span] hi :=
  h.leafAt.mono (h.start_eq ▸ h.lastStop_le) (Nat.le_refl _)

end Reads

theorem take_stays (h : c.kind ≠ .eof) : (c.take h).Stays x (c.Reads x) := by
  intro hc
  refine ⟨fun _ hd => (by cases hd), ?_⟩
  rintro _ ⟨⟩
  exact ⟨hc.advance, hc.lastStop_le_advance, rfl, hc.current.1, hc.current.2, hc.lt_of_ne_eof h,
    Inside.stop_le_advance h⟩

theorem takeInterpolated_stays (h : c.kind = .interpolated) :
    (c.takeInterpolated h).Stays x (c.Reads x) :=
  take_stays (c := c) (by simp [h])

/-- What is said about the token at the cursor is said about a place in the file. -/
theorem current_holds (h : c.Inside x) : x.Holds c.current.span :=
  h.current.1.holds

theorem expectOr_stays (kind : TokenKind) {d : Diagnostic} (hd : c.Inside x → x.Holds d.span) :
    (c.expectOr kind d).Stays x (c.Reads x) := by
  unfold expectOr
  split
  · exact take_stays _
  · exact .fail hd

theorem expect_stays (kind : TokenKind) : (c.expect kind).Stays x (c.Reads x) :=
  expectOr_stays kind current_holds

theorem expectName_stays (message : String) : (c.expectName message).Stays x (c.Reads x) :=
  expectOr_stays .identifier current_holds

theorem expectKind_stays (kind : TokenKind) :
    (c.expectKind kind c.unexpected).Stays x fun _ _ => True := by
  unfold expectKind
  split
  · intro hc
    exact ⟨fun _ hd => (by cases hd), fun _ _ => ⟨hc.advance, hc.lastStop_le_advance, trivial⟩⟩
  · exact .fail current_holds

theorem accept_stays (kind : TokenKind) : (c.accept kind).Stays x fun _ _ => True := by
  unfold accept
  split
  · intro hc
    exact ⟨fun _ hd => (by cases hd), fun _ _ => ⟨hc.advance, hc.lastStop_le_advance, trivial⟩⟩
  · exact .done fun _ => trivial

end Cursor

open Cursor (take_stays expectOr_stays expect_stays expectName_stays expectKind_stays accept_stays
  current_holds)

section

variable {x : Extent}

/-! ### Types -/

/-- Nothing is said about what is read. -/
theorem Step.Stays.anything {α : Type} {k : Nat} {c : Cursor} {P : Nat → α → Prop}
    {s : Step k c α} (h : s.Stays x P) : s.Stays x fun _ _ => True :=
  h.mono fun _ _ _ _ => trivial

theorem readPrimitiveTy_stays (c : Cursor) : (readPrimitiveTy c).Stays x fun _ _ => True := by
  unfold readPrimitiveTy
  split
  · exact .map (take_stays _).anything
  · exact .fail current_holds

mutual

theorem readTy_stays (c : Cursor) (power : Power) : (readTy c power).Stays x fun _ _ => True := by
  rw [readTy]
  exact (readTyHead_stays c).andThen fun _ c' _ _ _ _ => readTySuffixes_stays c' power _
termination_by 4 * c.weight + 3
decreasing_by all_goals omega

theorem readTyHead_stays (c : Cursor) : (readTyHead c).Stays x fun _ _ => True := by
  rw [readTyHead]
  split
  iterate 5 exact readPrimitiveTy_stays c
  · exact readNamedTy_stays c
  · exact readFnTy_stays c
  · exact .fail current_holds
termination_by 4 * c.weight + 2
decreasing_by all_goals omega

theorem readNamedTy_stays (c : Cursor) : (readNamedTy c).Stays x fun _ _ => True := by
  rw [readNamedTy]
  refine (expect_stays _).andThen ?_
  intro name c' _ _ _ _
  split
  · refine Stays.weaken ((expect_stays _).andThen ?_)
    intro _ c' _ _ _ _
    exact (readTy_stays c' .default).andThen fun _ _ _ _ _ _ => .map (expect_stays _).anything
  · exact .done fun _ => trivial
termination_by 4 * c.weight + 1
decreasing_by all_goals omega

theorem readFnTy_stays (c : Cursor) : (readFnTy c).Stays x fun _ _ => True := by
  rw [readFnTy]
  refine (expect_stays _).andThen fun _ c' _ _ _ _ => ?_
  refine (expect_stays _).andThen fun _ c' _ _ _ _ => ?_
  refine (readTys_stays c').andThen fun params c' _ _ _ _ => (accept_stays _).andThen ?_
  intro arrow c' _ _ _ _
  split
  · exact .map (readTy_stays c' .default).weaken
  · exact .done fun _ => trivial
termination_by 4 * c.weight + 1
decreasing_by all_goals omega

theorem readTys_stays (c : Cursor) : (readTys c).Stays x fun _ _ => True := by
  rw [readTys]
  split
  · exact .map (expect_stays _).anything
  · refine (readTy_stays c .default).andThen fun ty c' _ _ _ _ => (accept_stays _).andThen ?_
    intro comma c' _ _ _ _
    split
    · exact .map (readTys_stays c')
    · exact .map (expect_stays _).anything
termination_by 4 * c.weight + 4
decreasing_by all_goals omega

theorem readTySuffixes_stays (c : Cursor) (power : Power) (ty : Ty) :
    (readTySuffixes c power ty).Stays x fun _ _ => True := by
  rw [readTySuffixes]
  split
  · refine Stays.weaken ((expect_stays _).andThen fun _ c' _ _ _ _ => ?_)
    exact (expect_stays _).andThen fun _ c' _ _ _ _ => readTySuffixes_stays c' power _
  · exact .done fun _ => trivial
termination_by 4 * c.weight
decreasing_by all_goals omega

end

theorem readReturnTy_stays (c : Cursor) : (readReturnTy c).Stays x fun _ _ => True := by
  refine (accept_stays _).andThen ?_
  intro arrow c' _ _ _ _
  split
  · exact (readTy_stays c' .default).weaken
  · exact .done fun _ => trivial

/-! ### Parameters and patterns -/

theorem readParamList_stays (c : Cursor) : (readParamList c).Stays x fun hi params =>
    Row x.file c.lastStop (params.map Param.region) hi := by
  rw [readParamList]
  split
  · exact .map ((expect_stays _).mono fun _ _ hle _ => .nil hle)
  · refine (expectName_stays _).andThen fun name c' _ _ _ hname => ?_
    refine (expect_stays _).andThen fun _ c' _ _ hcolon _ => ?_
    refine (readTy_stays c' .default).andThen fun ty c' _ hin hty _ => ?_
    have hlt : name.span.start < c'.lastStop := by
      have := hname.start_lt
      omega
    have hparam := hin.spanFrom hname.lastStop_le hlt (.nil (Nat.le_of_lt hlt))
    refine (accept_stays _).andThen ?_
    intro comma c' _ _ hcomma _
    split
    · exact .map ((readParamList_stays c').mono fun _ _ _ hps =>
        hparam.append (hps.mono hcomma (Nat.le_refl _)))
    · exact .map ((expect_stays _).mono fun _ _ hle _ =>
        hparam.mono (Nat.le_refl _) (Nat.le_trans hcomma hle))
termination_by c.weight
decreasing_by all_goals omega

theorem readParams_stays (c : Cursor) : (readParams c).Stays x fun hi params =>
    Row x.file c.lastStop (params.map Param.region) hi :=
  (expect_stays _).andThen fun _ c' _ _ hopen _ =>
    (readParamList_stays c').mono fun _ _ _ hps => hps.mono hopen (Nat.le_refl _)

/-- A pattern has at least one token. -/
theorem readArmPattern_stays (c : Cursor) : (readArmPattern c).Stays x fun hi pattern =>
    Row x.file c.start pattern.regions hi ∧ c.start < hi := by
  have hone {hi : Nat} {t : Token} (h : c.Reads x hi t) : c.start < hi := h.start_eq ▸ h.start_lt
  unfold readArmPattern
  split
  · refine (expect_stays _).andThen fun some c' _ _ _ hsome => ?_
    refine (expect_stays _).andThen fun _ c' _ _ hopen _ => ?_
    refine (expect_stays _).andThen fun name c' _ _ _ hname => ?_
    refine .map ((expect_stays _).mono fun hi _ hclose _ => ?_)
    have hlt := hone hsome
    have hle := hname.leaf.le
    exact ⟨hname.leaf.mono (by omega) hclose, by omega⟩
  · exact .map ((expect_stays _).mono fun _ _ _ h => ⟨.nil (Nat.le_of_lt (hone h)), hone h⟩)
  · dsimp only
    split
    · exact .map (.mono (expectOr_stays _ fun h => current_holds h) fun _ _ _ h =>
        ⟨.nil (Nat.le_of_lt (hone h)), hone h⟩)
    · exact .fail current_holds

end

/-! ### Expressions and statements -/

theorem Token.literal_region {t : Token} {f : Node → Expr} (h : t.literal = .ok f) (node : Node) :
    (f node).region = .leaf node.span := by
  unfold Token.literal at h
  split at h
  · split at h
    · cases h
      rfl
    · cases h
  all_goals cases h
  all_goals rfl

theorem Token.literal_error {t : Token} {d : Diagnostic} (h : t.literal = .error d) :
    d.span = t.span := by
  unfold Token.literal at h
  split at h
  · split at h
    · cases h
    · cases h
      rfl
  all_goals cases h
  rfl

theorem readLiteral_stays {x : Extent} (c : Cursor) :
    (readLiteral c).Stays x fun hi e => Row x.file c.start [e.region] hi := by
  unfold readLiteral
  split
  · next d hd =>
    refine .fail fun hc => ?_
    rw [Token.literal_error hd]
    exact current_holds hc
  · next f hf =>
    refine (take_stays _).andThen fun token c' _ _ _ ht => .build fun _ n => ?_
    rw [Token.literal_region hf]
    exact ht.leafAt

/-- A hole is in its string, between the quotes. -/
theorem hole_within {x : Extent} {t : Token} (ht : x.Bears t) (hk : t.kind = .interpolated)
    {offset : Nat} {source : List Char} (h : .hole offset source ∈ Piece.split 0 t.value.toList) :
    t.span.start + 2 + offset + byteLength source ≤ t.span.stop := by
  obtain ⟨front, behind, hbody, ho⟩ := (Piece.holes_split 0 _).1 _ h offset source rfl
  have hopen : '\x7b'.utf8Size = 1 := rfl
  have hlength := ht.body hk
  rw [hbody] at hlength
  simp only [byteLength_append, byteLength_cons, hopen] at hlength
  omega

/-- A text that is one expression is read from where it stands in the file. -/
theorem Step.Stays.whole {x : Extent} {s : TokenStream} {k n : Nat}
    (h : (readExpr (.ofStream (s.shift k) n) .default).Stays x fun hi e =>
      Row x.file (Cursor.ofStream (s.shift k) n).start [e.region] hi) :
    ((readExpr (.ofStream (s.shift k) n) .default).andThen fun e c _ =>
      (c.expectKind .eof c.unexpected).map fun _ => e).Stays x fun hi e =>
        Row x.file k [e.region] hi := by
  refine h.andThen fun e c' _ _ _ he => ?_
  exact (expectKind_stays _).andThen fun _ _ _ _ hend _ =>
    .done fun _ => he.mono (le_start_ofStream s k n) hend

mutual

/-- An expression that is read starts at the cursor or later, if parentheses are left out. -/
theorem readExpr_stays {x : Extent} (c : Cursor) (power : Power) :
    (readExpr c power).Stays x fun hi e => Row x.file c.start [e.region] hi := by
  rw [readExpr]
  exact (readOperand_stays c).andThen fun left c' _ _ _ hl => readContinuations_stays c' power hl
termination_by 8 * c.weight + 5
decreasing_by all_goals omega

theorem readOperand_stays {x : Extent} (c : Cursor) :
    (readOperand c).Stays x fun hi e => Row x.file c.start [e.region] hi := by
  rw [readOperand]
  split
  iterate 8 exact readLiteral_stays c
  · next h => exact readInterpolated_stays c h
  · refine (expect_stays _).andThen fun token c' _ _ _ ht => ?_
    refine (expect_stays _).andThen fun _ c' _ hin _ _ => ?_
    refine (readExpr_stays c' .default).andThen fun inner c' _ _ _ hi => ?_
    refine (expect_stays _).andThen fun _ c' _ _ _ _ => .build fun hc _ => ?_
    have := ht.start_lt
    have := hin.current.2
    have := hi.le
    exact hc.spanFrom (Nat.le_of_eq ht.start_eq.symm) (by omega) (hi.mono (by omega) (by omega))
  · exact readUnary_stays c .dash .negate
  · exact readUnary_stays c .not .not
  · refine (expect_stays _).andThen fun token c' _ hin _ ht => ?_
    refine (readExpr_stays c' .default).andThen fun inner c' _ _ _ hi => ?_
    refine (expect_stays _).andThen fun _ _ _ _ hclose _ => .done fun _ => ?_
    have := ht.start_eq
    have := ht.start_lt
    have := hin.current.2
    exact hi.mono (by omega) hclose
  · refine (expect_stays _).andThen fun token c' _ _ _ ht => ?_
    refine (readArgs_stays c' .closeBracket).andThen fun items c' _ _ _ hs => .build fun hc _ => ?_
    have := ht.start_lt
    exact hc.spanFrom (Nat.le_of_eq ht.start_eq.symm) (by omega) (hs.mono (by omega) (Nat.le_refl _))
  · refine (expect_stays _).andThen fun token c' _ _ _ ht => ?_
    refine (expectName_stays _).andThen fun name c' _ _ _ hname => ?_
    refine (expect_stays _).andThen fun _ c' _ _ hopen _ => ?_
    refine (readArgs_stays c' .closeParen).andThen fun args c' _ _ _ hs => .build fun hc _ => ?_
    have := ht.start_lt
    have hrow := hname.leaf.append (hs.mono hopen (Nat.le_refl _))
    exact hc.spanFrom (Nat.le_of_eq ht.start_eq.symm) (by omega)
      (hrow.mono (by omega) (Nat.le_refl _))
  · refine (expect_stays _).andThen fun token c' _ _ _ ht => ?_
    refine (readParams_stays c').andThen fun params c' _ _ _ hps => ?_
    refine (readReturnTy_stays c').andThen fun ret c' _ _ hret _ => ?_
    refine (readBlock_stays c').andThen fun body c' _ _ _ hb => .build fun hc _ => ?_
    have := ht.start_lt
    have hrow := hps.append (hb.mono hret (Nat.le_refl _))
    exact hc.spanFrom (Nat.le_of_eq ht.start_eq.symm) (by omega)
      (hrow.mono (by omega) (Nat.le_refl _))
  · exact .fail current_holds
termination_by 8 * c.weight + 4
decreasing_by all_goals omega

theorem readUnary_stays {x : Extent} (c : Cursor) (kind : TokenKind) (op : UnaryOp) :
    (readUnary c kind op).Stays x fun hi e => Row x.file c.start [e.region] hi := by
  rw [readUnary]
  refine (expect_stays _).andThen fun token c' _ hin _ ht => ?_
  refine (readExpr_stays c' .unary).andThen fun operand c' _ _ _ ho => .build fun _ _ => ?_
  have := ht.start_lt
  have := hin.current.2
  have hrow := Row.reach ht.bears.holds.file (Nat.le_of_eq ht.start_eq.symm) (by omega) ho
  rwa [Expr.span_region] at hrow
termination_by 8 * c.weight + 1
decreasing_by all_goals omega

theorem readInterpolated_stays {x : Extent} (c : Cursor) (h : c.kind = .interpolated) :
    (readInterpolated c h).Stays x fun hi e => Row x.file c.start [e.region] hi := by
  rw [readInterpolated]
  refine Stays.moved ((Cursor.takeInterpolated_stays h).andThen fun token c' _ _ _ ht => ?_)
  have hk : token.kind = .interpolated := (congrArg (·.kind) ht.eq).trans h
  have hholes : ∀ offset source, .hole offset source ∈ Piece.split 0 c.current.value.toList →
      token.span.start ≤ token.span.start + 2 + offset ∧
        token.span.start + 2 + offset + byteLength source ≤ token.span.stop := by
    rw [← ht.eq]
    exact fun _ _ hmem => ⟨by omega, hole_within ht.bears hk hmem⟩
  have hparts := readParts_stays c' token _ ht.bears.holds (Nat.le_of_lt ht.nonempty) hholes
    (Piece.holes_split 0 _).2
  refine hparts.andThen fun parts c' _ _ hle hp => .build fun _ _ => ?_
  exact .one ht.bears.holds.file (Nat.le_of_eq ht.start_eq.symm) ht.nonempty
    (Nat.le_trans ht.le_hi hle) hp
termination_by 8 * c.weight + 1
decreasing_by
  have := Piece.totalWeight_split_le 0 c.current.value.toList
  simp only [String.length_toList] at this
  omega

/-- The holes stand in a row in their string, from `lo` on. -/
theorem readParts_stays {x : Extent} (c : Cursor) (token : Token) (pieces : List Piece) {lo : Nat}
    (ht : x.Holds token.span) (hlo : lo ≤ token.span.stop)
    (hholes : ∀ offset source, .hole offset source ∈ pieces →
      lo ≤ token.span.start + 2 + offset ∧
        token.span.start + 2 + offset + byteLength source ≤ token.span.stop)
    (hordered : pieces.Pairwise fun p q => ∀ o source o' source', p = .hole o source →
      q = .hole o' source' → o + byteLength source < o') :
    (readParts c token pieces).Stays x fun _ parts =>
      Row x.file lo (partsRegions parts) token.span.stop := by
  match pieces with
  | [] =>
    rw [readParts]
    exact .done fun _ => .nil hlo
  | .text raw :: ps =>
    rw [readParts]
    exact .map (readParts_stays c token ps ht hlo
      (fun o s h => hholes o s (List.mem_cons_of_mem _ h)) (List.pairwise_cons.1 hordered).2)
  | .hole offset source :: ps =>
    obtain ⟨hbehind, hordered⟩ := List.pairwise_cons.1 hordered
    obtain ⟨hstart, hstop⟩ := hholes offset source List.mem_cons_self
    have hsize := ht.within
    rw [readParts]
    split
    · next d lexed =>
      exact .fail fun hc => holds_of_tokenize_error lexed hc.file (by omega)
    · next stream lexed =>
      have hw : stream.weight ≤ source.length := weight_le_length lexed
      -- The hole is a part of the file that ends before the rest of the string.
      generalize hend : token.span.start + 2 + offset + byteLength source = stop at hstop
      refine Stays.andThen (P := fun _ e => Row x.file lo [e.region] stop) ?_
        fun value c' _ _ _ hv => ?_
      · have hinner := Stays.whole (x := ⟨x.file, stop⟩) (readExpr_stays
          (.ofStream (stream.shift (token.span.start + 2 + offset)) c.nextId) .default)
        refine (hinner.inside (x := x) rfl (Nat.le_trans hstop hsize) fun hc =>
          inside_of_tokenize (x := ⟨x.file, stop⟩) lexed hc.file (Nat.le_of_eq hend) c.nextId).mono ?_
        rintro _ e _ ⟨hi, hle, he⟩
        exact he.mono hstart hle
      · refine .map ((readParts_stays c' token ps ht hstop (fun o s h => ?_) hordered).mono
          fun _ parts _ hps => hv.append hps)
        have hnext := hbehind _ h offset source o s rfl rfl
        exact ⟨by omega, (hholes o s (List.mem_cons_of_mem _ h)).2⟩
  | .unclosed :: ps =>
    rw [readParts]
    exact .fail fun _ => ht
termination_by 8 * Piece.totalWeight pieces + 6
decreasing_by
  · simp only [Piece.weight, Piece.totalWeight_cons]
    omega
  · simp only [Piece.weight, Piece.totalWeight_cons, Cursor.weight_ofStream,
      TokenStream.weight_shift]
    omega
  · simp only [Piece.weight, Piece.totalWeight_cons]
    omega

theorem readContinuations_stays {x : Extent} (c : Cursor) (power : Power) {left : Expr} {lo : Nat}
    (hl : Row x.file lo [left.region] c.lastStop) :
    (readContinuations c power left).Stays x fun hi e => Row x.file lo [e.region] hi := by
  rw [readContinuations]
  split
  · exact .done fun _ => hl
  · next k hk =>
    split
    · exact .done fun _ => hl
    · refine Stays.weaken ((readContinuation_stays c k hl _).andThen fun left c' _ _ _ hl => ?_)
      exact readContinuations_stays c' power hl
termination_by 8 * c.weight + 2
decreasing_by all_goals omega

theorem readContinuation_stays {x : Extent} (c : Cursor) (k : Continuation) {left : Expr} {lo : Nat}
    (hl : Row x.file lo [left.region] c.lastStop) (ne : c.kind ≠ .eof) :
    (readContinuation c k left ne).Stays x fun hi e => Row x.file lo [e.region] hi := by
  rw [readContinuation]
  refine (take_stays ne).andThen fun _ c' _ hin hop _ => ?_
  have hlast := hin.current.2
  cases k with
  | assign =>
    refine Stays.weaken ((readExpr_stays c' .comma).andThen fun value c' _ _ _ hv =>
      .build fun _ _ => ?_)
    have hrow := hl.cover (hv.mono (by omega) (Nat.le_refl _))
    rwa [Expr.span_region, Expr.span_region] at hrow
  | binary op =>
    refine Stays.weaken ((readExpr_stays c' op.power).andThen fun right c' _ _ _ hr =>
      .build fun _ _ => ?_)
    have hrow := hl.cover (hr.mono (by omega) (Nat.le_refl _))
    rwa [Expr.span_region, Expr.span_region] at hrow
  | call =>
    refine (readArgs_stays c' .closeParen).andThen fun args c' _ _ _ hs => .build fun hc _ => ?_
    obtain ⟨hlo, hlt, hrow⟩ := hl.behind (hs.mono hop (Nat.le_refl _))
    rw [Expr.span_region] at hlo hlt hrow
    exact hc.spanFrom hlo hlt hrow
  | index =>
    refine Stays.weaken ((readExpr_stays c' .default).andThen fun place c' _ _ _ hp => ?_)
    refine (expect_stays _).andThen fun _ c' _ _ hclose _ => .build fun hc _ => ?_
    obtain ⟨hlo, hlt, hrow⟩ := hl.behind (hp.mono (by omega) hclose)
    rw [Expr.span_region] at hlo hlt hrow
    exact hc.spanFrom hlo hlt hrow
  | member =>
    refine Stays.weaken ((expectName_stays _).andThen fun name c' _ _ _ hname =>
      .build fun _ _ => ?_)
    have hrow := hl.cover (hname.leaf.mono hop (Nat.le_refl _))
    rwa [Expr.span_region] at hrow
termination_by 8 * c.weight + 1
decreasing_by all_goals omega

theorem readArgs_stays {x : Extent} (c : Cursor) (close : TokenKind) :
    (readArgs c close).Stays x fun hi es => Row x.file c.lastStop (exprsRegions es) hi := by
  rw [readArgs]
  split
  · exact .map ((expectKind_stays _).mono fun _ _ hle _ => .nil hle)
  · refine .begun fun hc => ?_
    have hlast := hc.current.2
    refine Stays.weaken ((readExpr_stays c .comma).andThen fun arg c' _ _ _ ha => ?_)
    refine (accept_stays _).andThen fun comma c' _ _ hcomma _ => ?_
    have harg := ha.mono hlast hcomma
    split
    · exact .map ((readArgs_stays c' close).mono fun _ _ _ hs => harg.append hs)
    · exact .map ((expectKind_stays _).mono fun _ _ hle _ => harg.mono (Nat.le_refl _) hle)
termination_by 8 * c.weight + 6
decreasing_by all_goals omega

theorem readBlock_stays {x : Extent} (c : Cursor) :
    (readBlock c).Stays x fun hi b => Row x.file c.lastStop [b.region] hi := by
  rw [readBlock]
  refine (expect_stays _).andThen fun token c' _ _ _ ht => ?_
  refine (readStmts_stays c').andThen fun stmts c' _ _ _ hs => .done fun hc => ?_
  have := ht.start_lt
  exact hc.spanFrom ht.lastStop_le (by omega) (hs.mono (by omega) (Nat.le_refl _))
termination_by 8 * c.weight + 3
decreasing_by all_goals omega

theorem readStmts_stays {x : Extent} (c : Cursor) :
    (readStmts c).Stays x fun hi ss => Row x.file c.lastStop (stmtsRegions ss) hi := by
  rw [readStmts]
  split
  · exact .map ((expect_stays _).mono fun _ _ hle _ => .nil hle)
  · exact .fail current_holds
  · refine (readStmt_stays c).andThen fun stmt c' _ _ _ hs => ?_
    exact .map ((readStmts_stays c').mono fun _ _ _ hss => hs.append hss)
termination_by 8 * c.weight + 7
decreasing_by all_goals omega

/-- A statement that is read stands behind the token before it. -/
theorem readStmt_stays {x : Extent} (c : Cursor) :
    (readStmt c).Stays x fun hi s => Row x.file c.lastStop [s.region] hi := by
  rw [readStmt]
  split
  · refine (expect_stays _).andThen fun token c' _ _ _ ht => ?_
    refine (accept_stays _).andThen fun mutable c' _ _ _ _ => ?_
    refine (expectName_stays _).andThen fun name c' _ _ _ hname => ?_
    refine (accept_stays _).andThen fun colon c' _ _ _ _ => ?_
    have hty : (if colon then (readTy c' .default).weaken.map some else .done c' none :
        Step 0 c' (Option Ty)).Stays x fun _ _ => True := by
      split
      · exact .present (readTy_stays c' .default)
      · exact .done fun _ => trivial
    refine hty.andThen fun ty c' _ _ _ _ => ?_
    refine (expectOr_stays _ current_holds).andThen fun _ c' _ hin _ _ => ?_
    refine (readExpr_stays c' .default).andThen fun value c' _ _ _ hv => ?_
    refine (expect_stays _).andThen fun _ c' _ _ hend _ => .done fun hc => ?_
    have := ht.start_lt
    have := hname.leaf.le
    have := hin.current.2
    have hrow := hname.leaf.append (hv.mono (by omega) hend)
    exact hc.spanFrom ht.lastStop_le (by omega) (hrow.mono (by omega) (Nat.le_refl _))
  · refine (expect_stays _).andThen fun token c' _ hin _ ht => ?_
    have hv : (if c'.kind = .semicolon then .done c' none
        else (readExpr c' .default).weaken.map some : Step 0 c' (Option Expr)).Stays x
          fun hi value => Row x.file c'.lastStop (exprsRegions value.toList) hi := by
      split
      · exact .done fun _ => .nil (Nat.le_refl _)
      · exact .present ((readExpr_stays c' .default).mono fun _ _ _ he =>
          he.mono hin.current.2 (Nat.le_refl _))
    refine hv.andThen fun value c' _ _ _ hv => ?_
    refine (expect_stays _).andThen fun _ c' _ _ hend _ => .done fun hc => ?_
    have := ht.start_lt
    have hrow := hv.mono (Nat.le_of_lt ht.start_lt) hend
    cases value with
    | none => exact hc.spanFrom ht.lastStop_le (by omega) hrow
    | some e => exact hc.spanFrom ht.lastStop_le (by omega) hrow
  · exact readIf_stays c
  · refine (expect_stays _).andThen fun token c' _ hin _ ht => ?_
    refine (readExpr_stays c' .default).andThen fun condition c' _ _ _ hc => ?_
    refine (readBlock_stays c').andThen fun body c' _ _ _ hb => .done fun hin' => ?_
    have := ht.start_lt
    have := hin.current.2
    exact hin'.spanFrom ht.lastStop_le (by omega)
      ((hc.append hb).mono (by omega) (Nat.le_refl _))
  · refine (expect_stays _).andThen fun token c' _ _ _ ht => ?_
    refine (accept_stays _).andThen fun parenthesised c' _ _ _ _ => ?_
    refine (expectName_stays _).andThen fun name c' _ _ _ hname => ?_
    refine (expect_stays _).andThen fun _ c' _ hin _ _ => ?_
    refine (readExpr_stays c' .default).andThen fun iterable c' _ _ _ hi => ?_
    refine Stays.andThen (P := fun _ _ => True) ?_ fun _ c' _ _ hclose _ => ?_
    · split
      · exact .map (expect_stays _).anything.weaken
      · exact .done fun _ => trivial
    refine (readBlock_stays c').andThen fun body c' _ _ _ hb => .done fun hc => ?_
    have := ht.start_lt
    have := hname.leaf.le
    have := hin.current.2
    have hrow := (hname.leaf.append (hi.mono (by omega) hclose)).append hb
    exact hc.spanFrom ht.lastStop_le (by omega) (hrow.mono (by omega) (Nat.le_refl _))
  · refine (expect_stays _).andThen fun token c' _ hin _ ht => ?_
    refine (readExpr_stays c' .default).andThen fun scrutinee c' _ _ _ hs => ?_
    refine (expect_stays _).andThen fun _ c' _ _ hopen _ => ?_
    refine (readArms_stays c').andThen fun arms c' _ _ _ ha => .done fun hc => ?_
    have := ht.start_lt
    have := hin.current.2
    have hrow := hs.append (ha.mono hopen (Nat.le_refl _))
    exact hc.spanFrom ht.lastStop_le (by omega) (hrow.mono (by omega) (Nat.le_refl _))
  · refine .map ((readBlock_stays c).mono fun _ b _ hb => ?_)
    have hrow := hb.wrap
    rwa [Block.span_region] at hrow
  · refine .begun fun hc => (readExpr_stays c .default).andThen fun value c' _ _ _ hv => ?_
    refine .map ((expect_stays _).mono fun _ _ hend _ => ?_)
    have hrow := (hv.mono hc.current.2 hend).wrap
    rwa [Expr.span_region] at hrow
termination_by 8 * c.weight + 6
decreasing_by all_goals omega

theorem readIf_stays {x : Extent} (c : Cursor) :
    (readIf c).Stays x fun hi s => Row x.file c.lastStop [s.region] hi := by
  rw [readIf]
  refine (expect_stays _).andThen fun token c' _ hin _ ht => ?_
  refine (readExpr_stays c' .default).andThen fun condition c' _ _ _ hc => ?_
  refine (readBlock_stays c').andThen fun body c' _ _ _ hb => ?_
  refine (accept_stays _).andThen fun otherwise c' _ _ helse _ => ?_
  have ho : (if otherwise then
        if c'.kind = .kwIf then (readIf c').weaken.map some
        else (readBlock c').weaken.map fun b => some (.block b)
      else .done c' none : Step 0 c' (Option Stmt)).Stays x
        fun hi o => Row x.file c'.lastStop (o.toList.map Stmt.region) hi := by
    split
    · split
      · exact .present (readIf_stays c')
      · refine .map (Stays.weaken ((readBlock_stays c').mono fun _ b _ hb => ?_))
        have hrow := hb.wrap
        rwa [Block.span_region] at hrow
    · exact .done fun _ => .nil (Nat.le_refl _)
  refine ho.andThen fun otherwise c' _ _ _ ho => .done fun hin' => ?_
  have := ht.start_lt
  have := hin.current.2
  have hrow := (hc.append hb).append (ho.mono helse (Nat.le_refl _))
  cases otherwise with
  | none => exact hin'.spanFrom ht.lastStop_le (by omega) (hrow.mono (by omega) (Nat.le_refl _))
  | some s => exact hin'.spanFrom ht.lastStop_le (by omega) (hrow.mono (by omega) (Nat.le_refl _))
termination_by 8 * c.weight + 5
decreasing_by all_goals omega

theorem readArms_stays {x : Extent} (c : Cursor) :
    (readArms c).Stays x fun hi as => Row x.file c.lastStop (armsRegions as) hi := by
  rw [readArms]
  split
  · exact .map ((expect_stays _).mono fun _ _ hle _ => .nil hle)
  · refine (readArm_stays c).andThen fun arm c' _ _ _ ha => ?_
    refine (accept_stays _).andThen fun _ c' _ _ hcomma _ => ?_
    exact .map ((readArms_stays c').mono fun _ arms _ has =>
      ha.append (has.mono hcomma (Nat.le_refl _)))
termination_by 8 * c.weight + 7
decreasing_by all_goals omega

theorem readArm_stays {x : Extent} (c : Cursor) :
    (readArm c).Stays x fun hi a => Row x.file c.lastStop [a.region] hi := by
  rw [readArm]
  refine .begun fun hin => (readArmPattern_stays c).andThen fun pattern c' _ _ _ hp => ?_
  refine (expect_stays _).andThen fun _ c' _ _ harrow _ => ?_
  have hb : (if c'.kind = .openCurly then readBlock c'
      else
        (readExpr c' .default).andThen fun value c _ =>
          (c.accept .semicolon).map fun _ => ⟨[.expr value], value.span⟩ : Step 1 c' Block).Stays x
        fun hi b => Row x.file c'.lastStop [b.region] hi := by
    split
    · exact readBlock_stays c'
    · refine .begun fun hin => (readExpr_stays c' .default).andThen fun value c' _ _ _ hv => ?_
      refine .map ((accept_stays _).mono fun _ _ hend _ => ?_)
      have hrow := (hv.mono hin.current.2 hend).wrap.wrap
      rwa [Region.span, Expr.span_region] at hrow
  refine hb.andThen fun body c' _ _ _ hb => .done fun hc => ?_
  obtain ⟨hp, hlt⟩ := hp
  exact hc.spanFrom hin.current.2 (by omega) (hp.append (hb.mono harrow (Nat.le_refl _)))
termination_by 8 * c.weight + 6
decreasing_by all_goals omega

end

/-- A text that is one expression takes up a region of the file, where the text stands. -/
theorem parseExpr_row {file text : String} {k n : Nat} {e : Expr}
    (h : (parseExpr file text k n).1 = .ok e) :
    Row file k [e.region] (k + byteLength text.toList) := by
  unfold parseExpr at h
  split at h
  · cases h
  next stream lexed =>
  have hin := inside_of_tokenize (x := ⟨file, k + byteLength text.toList⟩) lexed rfl
    (Nat.le_refl _) n
  obtain ⟨hin', -, he⟩ := (Stays.whole (readExpr_stays _ .default) hin).2 e h
  exact he.mono (Nat.le_refl _) (Nat.le_trans hin'.last hin'.stop)

/-! ### Declarations -/

section

variable {x : Extent}

theorem readVisibility_stays (c : Cursor) : (readVisibility c).Stays x fun _ _ => True := by
  unfold readVisibility
  split
  · exact Stays.weaken (.map (expect_stays _).anything)
  · exact Stays.weaken (.map (expect_stays _).anything)
  · exact .done fun _ => trivial

theorem readSegments_stays (c : Cursor) (path : String) :
    (readSegments c path).Stays x fun _ _ => True := by
  rw [readSegments]
  split
  · refine Stays.weaken ((expect_stays _).andThen fun _ c' _ _ _ _ => ?_)
    exact (expectName_stays _).andThen fun segment c' _ _ _ _ => readSegments_stays c' _
  · exact .done fun _ => trivial
termination_by c.weight
decreasing_by all_goals omega

theorem readUsing_stays (c : Cursor) :
    (readUsing c).Stays x fun hi u => Row x.file c.lastStop [.leaf u.span] hi := by
  refine (expect_stays _).andThen fun token c' _ _ _ ht => ?_
  refine (expectName_stays _).andThen fun first c' _ _ _ _ => ?_
  refine (readSegments_stays c' _).andThen fun path c' _ _ _ _ => ?_
  refine (expect_stays _).andThen fun _ c' _ _ _ _ => .done fun hc => ?_
  have := ht.start_lt
  exact hc.spanFrom ht.lastStop_le (by omega) (.nil (by omega))

/-- The place of a function begins with its marks, which are before the first word of it. -/
theorem readFunction_stays (c : Cursor) {start : Nat} (hs : start ≤ c.start)
    (isPublic isStatic : Bool) :
    (readFunction c start isPublic isStatic).Stays x fun hi f =>
      Row x.file start [f.region] hi := by
  refine (expect_stays _).andThen fun token c' _ _ _ ht => ?_
  refine (expectName_stays _).andThen fun name c' _ _ _ hname => ?_
  refine (readParams_stays c').andThen fun params c' _ _ _ hps => ?_
  refine (readReturnTy_stays c').andThen fun ret c' _ _ hret _ => ?_
  refine (readBlock_stays c').andThen fun body c' _ _ _ hb => .done fun hc => ?_
  have := ht.start_eq
  have := ht.start_lt
  have hrow := hname.leaf.append (hps.append (hb.mono hret (Nat.le_refl _)))
  exact hc.spanFrom (Nat.le_refl _) (by omega) (hrow.mono (by omega) (Nat.le_refl _))

theorem readField_stays (c : Cursor) {start : Nat} (hs : start ≤ c.start)
    (isPublic isStatic : Bool) :
    (readField c start isPublic isStatic).Stays x fun hi f => Row x.file start [f.region] hi := by
  refine (expect_stays _).andThen fun name c' _ _ _ hname => ?_
  refine (expect_stays _).andThen fun _ c' _ _ _ _ => ?_
  refine (readTy_stays c' .default).andThen fun ty c' _ _ _ _ => ?_
  refine (accept_stays _).andThen fun assigned c' _ hin _ _ => ?_
  have hi : (if assigned then (readExpr c' .default).weaken.map some else .done c' none :
      Step 0 c' (Option Expr)).Stays x fun hi o =>
        Row x.file c'.lastStop (exprsRegions o.toList) hi := by
    split
    · exact .present ((readExpr_stays c' .default).mono fun _ _ _ he =>
        he.mono hin.current.2 (Nat.le_refl _))
    · exact .done fun _ => .nil (Nat.le_refl _)
  refine hi.andThen fun initial c' _ _ _ hi => ?_
  refine (expect_stays _).andThen fun _ c' _ _ hend _ => .done fun hc => ?_
  have := hname.start_eq
  have := hname.start_lt
  exact hc.spanFrom (Nat.le_refl _) (by omega) (hi.mono (by omega) hend)

theorem readMembers_stays (c : Cursor) :
    (readMembers c).Stays x fun hi ms => Row x.file c.lastStop (ms.map Member.region) hi := by
  rw [readMembers]
  split
  · exact .map ((expect_stays _).mono fun _ _ hle _ => .nil hle)
  · refine .begun fun hc => ?_
    refine .behindOpt (readVisibility_stays c) (readVisibility_advances c)
      fun visibility c' _ hv => ?_
    refine .behindOpt (accept_stays _) (Cursor.accept_advances _) fun isStatic c' _ hs => ?_
    refine Stays.andThen (P := fun hi m => Row x.file c.start [Member.region m] hi) ?_
      fun m c' _ _ _ hm => ?_
    · split
      · exact .map (readFunction_stays _ (Nat.le_trans hv hs) _ _)
      · exact .map (readField_stays _ (Nat.le_trans hv hs) _ _)
      · exact .fail current_holds
    · exact .map ((readMembers_stays c').mono fun _ _ _ hms =>
        (hm.append hms).mono hc.current.2 (Nat.le_refl _))
termination_by c.weight
decreasing_by all_goals omega

theorem readClass_stays (c : Cursor) {start : Nat} (hs : start ≤ c.start) (isPublic : Bool) :
    (readClass c start isPublic).Stays x fun hi d =>
      ∃ r, (Item.classDecl d).Covers r ∧ Row x.file start [r] hi := by
  refine (expect_stays _).andThen fun token c' _ _ _ ht => ?_
  refine (expectName_stays _).andThen fun name c' _ _ _ hname => ?_
  refine (expect_stays _).andThen fun _ c' _ _ hopen _ => ?_
  refine (readMembers_stays c').andThen fun ms c' _ _ _ hms => .done fun hc => ?_
  have := ht.start_eq
  have := ht.start_lt
  have hrow := hname.leaf.append (hms.mono hopen (Nat.le_refl _))
  exact ⟨_, .classDecl ⟨rfl, rfl⟩,
    hc.spanFrom (Nat.le_refl _) (by omega) (hrow.mono (by omega) (Nat.le_refl _))⟩

theorem readItem_stays (c : Cursor) :
    (readItem c).Stays x fun hi item => ∃ r, item.Covers r ∧ Row x.file c.lastStop [r] hi := by
  unfold readItem
  split
  · exact .map ((readUsing_stays c).mono fun _ u _ hu => ⟨_, .directive u, hu⟩)
  · refine .begun fun hc => ?_
    have hlast := hc.current.2
    refine .behindOpt (readVisibility_stays c) (readVisibility_advances c)
      fun visibility c' _ hv => ?_
    split
    · refine .map ((readFunction_stays c' hv _ _).mono fun _ f _ hf => ?_)
      exact ⟨_, .function f, hf.mono hlast (Nat.le_refl _)⟩
    · refine .map ((readClass_stays c' hv _).mono fun _ d _ hd => ?_)
      obtain ⟨r, hr, hrow⟩ := hd
      exact ⟨r, hr, hrow.mono hlast (Nat.le_refl _)⟩
    · exact .fail current_holds

/-- The declarations, one by one, take up these regions. -/
def Declarations.Fills (d : Declarations) (rs : List Region) : Prop :=
  ∃ items, d = items.foldl Declarations.add {} ∧ List.Forall₂ Item.Covers items rs

theorem Declarations.Fills.add {d : Declarations} {rs : List Region} (h : d.Fills rs) {item : Item}
    {r : Region} (hr : item.Covers r) : (d.add item).Fills (rs ++ [r]) := by
  obtain ⟨items, rfl, hrs⟩ := h
  refine ⟨items ++ [item], ?_, List.rel_append hrs (.cons hr .nil)⟩
  rw [List.foldl_append]
  rfl

/-- Declarations have the places of those before and of the one that is added. -/
theorem Declarations.mem_places_add {d : Declarations} {item : Item} {p : Span}
    (h : p ∈ (d.add item).places) : p ∈ d.places ∨ p ∈ item.places := by
  cases item with
  | directive u =>
    simp only [places, add, Item.places, List.map_append, List.mem_append, List.map_cons,
      List.map_nil] at h ⊢
    grind
  | function f =>
    simp only [places, add, Item.places, List.flatMap_append, List.mem_append, List.flatMap_cons,
      List.flatMap_nil, List.append_nil] at h ⊢
    grind
  | classDecl c =>
    simp only [places, add, Item.places, List.flatMap_append, List.mem_append, List.flatMap_cons,
      List.flatMap_nil, List.append_nil] at h ⊢
    grind

/-- The places of declarations are those of the regions that they take up. -/
theorem Declarations.Fills.places_among {d : Declarations} {rs : List Region} (h : d.Fills rs) :
    Among d.places rs := by
  obtain ⟨items, rfl, hrs⟩ := h
  suffices ∀ d rs', Among (Declarations.places d) rs' →
      Among (items.foldl Declarations.add d).places (rs' ++ rs) from this {} [] .nil
  induction hrs with
  | nil => exact fun d rs' hd => (List.append_nil rs').symm ▸ hd
  | @cons item r items rs hr _ ih =>
    intro d rs' hd
    have hone : Among (d.add item).places (rs' ++ [r]) := fun p hp =>
      hd.append hr.places_among (List.mem_append.2 (Declarations.mem_places_add hp))
    have hall := ih _ _ hone
    rwa [List.append_assoc] at hall

theorem readItems_stays (c : Cursor) {d : Declarations} {rs : List Region} (hd : d.Fills rs)
    (hrs : Row x.file 0 rs c.lastStop) :
    (readItems c d).Stays x fun hi d => ∃ rs, d.Fills rs ∧ Row x.file 0 rs hi := by
  rw [readItems]
  split
  · exact .done fun _ => ⟨rs, hd, hrs⟩
  · refine Stays.weaken ((readItem_stays c).andThen fun item c' _ _ _ hi => ?_)
    obtain ⟨r, hr, hrow⟩ := hi
    exact readItems_stays c' (hd.add hr) (hrs.append hrow)
termination_by c.weight
decreasing_by all_goals omega

end

/-- What the reader says to be wrong is in the text, and the declarations that it reads take up
regions in a row. -/
theorem parseSource_rows (file text : String) (n : Nat) :
    (∀ d, (parseSource file text n).1 = .error d →
      Extent.Holds ⟨file, byteLength text.toList⟩ d.span) ∧
    ∀ d, (parseSource file text n).1 = .ok d →
      ∃ rs, d.Fills rs ∧ Row file 0 rs (byteLength text.toList) := by
  unfold parseSource
  split
  · next d hd =>
    refine ⟨?_, fun _ h => by cases h⟩
    rintro _ ⟨⟩
    exact holds_of_tokenize_error hd rfl (Nat.le_refl _)
  · next s hs =>
    have hin : (Cursor.ofStream s n).Inside ⟨file, byteLength text.toList⟩ := by
      rw [← s.shift_zero]
      exact inside_of_tokenize hs rfl (Nat.le_of_eq (Nat.zero_add _)) n
    obtain ⟨herror, hok⟩ :=
      readItems_stays _ (d := {}) ⟨[], rfl, .nil⟩ (.nil (Nat.le_refl 0)) hin
    refine ⟨herror, fun d hd => ?_⟩
    obtain ⟨hin', -, rs, hfills, hrow⟩ := hok d hd
    exact ⟨rs, hfills, hrow.mono (Nat.le_refl _) (Nat.le_trans hin'.last hin'.stop)⟩

/-- **What is said about a source text is said about places in it**: where it cannot be read, and
otherwise where its declarations are. -/
theorem parseSource_stays (file text : String) (n : Nat) :
    (∀ d, (parseSource file text n).1 = .error d →
      Extent.Holds ⟨file, byteLength text.toList⟩ d.span) ∧
    ∀ d, (parseSource file text n).1 = .ok d →
      ∀ p ∈ d.places, Extent.Holds ⟨file, byteLength text.toList⟩ p := by
  obtain ⟨herror, hok⟩ := parseSource_rows file text n
  refine ⟨herror, fun d hd p hp => ?_⟩
  obtain ⟨rs, hfills, hrow⟩ := hok d hd
  obtain ⟨hfile, -, hlt, hstop⟩ := hrow.forall_spans p (hfills.places_among hp)
  exact ⟨hfile, Nat.le_of_lt hlt, hstop⟩

/-- **Places are nested like the tree.** The declarations of a source text of less than 2^32 bytes,
in the order in which they are written, take up regions of it that do not overlap, and so do the
parts of each. All their places are kept as they are. -/
theorem parseSource_nested {file text : String} (hsize : byteLength text.toList < UInt32.size)
    {n : Nat} {d : Declarations} (h : (parseSource file text n).1 = .ok d) :
    ∃ items rs, d = items.foldl Declarations.add {} ∧ List.Forall₂ Item.Covers items rs ∧
      (∀ s ∈ regionsSpans rs, s.stored = s) ∧
      (∀ r ∈ rs, r.Nested file ∧ r.span.stop ≤ byteLength text.toList) ∧
      rs.Pairwise fun a b => a.span.stop ≤ b.span.start := by
  obtain ⟨rs, ⟨items, hitems, hrs⟩, hrow⟩ := (parseSource_rows file text n).2 d h
  obtain ⟨hnested, hordered⟩ := hrow.nested
  refine ⟨items, rs, hitems, hrs, fun s hs => ?_,
    fun r hr => ⟨(hnested r hr).1, (hnested r hr).2.2⟩, hordered⟩
  obtain ⟨-, -, hlt, hstop⟩ := hrow.forall_spans s hs
  exact Span.stored_eq_self (by omega) (by omega)

/-- In a class with a method among its fields, where a string has two holes, one of them in
parentheses. -/
theorem parseSource_nested_holes :
    let text := "class C \x7b pub n: int = 1; fn f(x: Option<int>) \x7b match x \x7b " ++
      "Some(y) => $\"\x7b(y)\x7da\x7bn\x7d\"; _ => \x7b -x; \x7d \x7d \x7d m: int; \x7d"
    byteLength text.toList < UInt32.size ∧ ∃ d, (parseSource "c.mg" text 0).1 = .ok d ∧
      ∃ items rs, d = items.foldl Declarations.add {} ∧ List.Forall₂ Item.Covers items rs ∧
        (∀ s ∈ regionsSpans rs, s.stored = s) ∧
        (∀ r ∈ rs, r.Nested "c.mg" ∧ r.span.stop ≤ byteLength text.toList) ∧
        rs.Pairwise fun a b => a.span.stop ≤ b.span.start := by
  intro text
  have hsize : byteLength text.toList < UInt32.size := by decide
  have hrun : ((parseSource "c.mg" text 0).1.toOption).isSome = true := by decide +kernel
  obtain ⟨d, hd⟩ := Option.isSome_iff_exists.1 hrun
  have hd := eq_ok_of_toOption hd
  exact ⟨hsize, d, hd, parseSource_nested hsize hd⟩

/-- A function that reaches over byte 2^32 is kept as one that ends before it starts. And the
pattern `None` takes up no region. -/
theorem parseSource_nested_exceptions :
    let text := "fn f() \x7b match x \x7b None => \x7b \x7d \x7d \x7d"
    (∃ d, (parseSource "a"
        (.ofList (blanks (UInt32.size - 1) ++ "fn f() \x7b \x7d".toList)) 0).1 = .ok d ∧
      ∃ f ∈ d.functions, f.span.stored.stop < f.span.stored.start) ∧
    (∃ behind, Slice text.toList 19 23 "None".toList behind) ∧
    ∃ d f, (parseSource "a" text 0).1 = .ok d ∧ d.functions = [f] ∧
      ⟨"a", 19, 23⟩ ∉ f.region.spans := by
  intro text
  have hnone : Slice text.toList 19 23 "None".toList " => \x7b \x7d \x7d \x7d".toList :=
    ⟨"fn f() \x7b match x \x7b ".toList, by decide, by decide, by decide⟩
  refine ⟨?_, ⟨_, hnone⟩, ?_⟩
  · have hrun : (tokensFrom "a" (UInt32.size - 1) "fn f() \x7b \x7d".toList).toOption.any
        (fun tokens =>
          let c := Cursor.ofStream ⟨"a", tokens, UInt32.size - 1 + 10⟩ 0
          (readItems c {}).outcome.toOption.any fun d =>
            d.functions.any fun f => f.span.stored.stop < f.span.stored.start) = true := by
      decide +kernel
    obtain ⟨d, hd, hf⟩ := exists_parseSource_behind_blanks hrun
    obtain ⟨f, hf, hspan⟩ := List.any_eq_true.1 hf
    exact ⟨d, hd, f, hf, of_decide_eq_true hspan⟩
  · have hrun : (parseSource "a" text 0).1.toOption.any (fun d => d.functions.length = 1 ∧
        ∀ f ∈ d.functions, ⟨"a", 19, 23⟩ ∉ f.region.spans) = true := by
      decide +kernel
    obtain ⟨d, hd, hrun⟩ := (Option.any_eq_true _ _).1 hrun
    obtain ⟨hone, hspans⟩ := of_decide_eq_true hrun
    obtain ⟨f, hf⟩ := List.length_eq_one_iff.1 hone
    exact ⟨d, f, eq_ok_of_toOption hd, hf, hspans f (hf ▸ List.mem_singleton_self f)⟩

end MgLang
