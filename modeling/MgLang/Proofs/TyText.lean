import MgLang.Proofs.Layout
import MgLang.Proofs.ReadTy
/-!
# Types in messages are read back

A message shows a type as a text that the grammar reads (`readTy_text`), with one exception: an
array is shown by brackets behind its elements, and brackets behind a function belong to what the
function returns. So an array of functions is read as a function that returns an array, and two
types are shown alike only if such an array is in one of them.

The text is first cut into tokens, `Ty.shown` (`lexedAs_text`), and these are then read in front of
any brackets (`readTy_shown`).
-/

namespace MgLang

open Lexeme (separated separated_cons_cons)
open Step (Reads)
open Cursor (kind_of_shows reads_fixed)

/-! ### Types with names and without arrays of functions -/

/-- The name is an identifier that is not reserved. -/
def IsName (name : String) : Prop :=
  Spelled name.toList .identifier name

/-- The classes in the type go by names that can be written. -/
def Ty.Named (t : Ty) : Prop :=
  ∀ name ∈ t.classNames, IsName name

/-- The classes in the types of a list go by names that can be written. -/
def TysNamed (ts : List Ty) : Prop :=
  ∀ name ∈ Ty.classNamesAll ts, IsName name

theorem Ty.named_fn {params : List Ty} {ret : Ty} :
    (Ty.fn params ret).Named ↔ TysNamed params ∧ ret.Named :=
  List.forall_mem_append

theorem tysNamed_cons {t : Ty} {ts : List Ty} : TysNamed (t :: ts) ↔ t.Named ∧ TysNamed ts :=
  List.forall_mem_append

theorem Ty.Named.of_no_names {t : Ty} (h : t.classNames = []) : t.Named := by
  intro name hn
  rw [h] at hn
  cases hn

/-- The type is one of functions. -/
def Ty.isFunction : Ty → Bool
  | .fn _ _ => true
  | _ => false

mutual

/-- Somewhere in the type is an array of functions. -/
def Ty.hasFunctionArray : Ty → Bool
  | .array inner => inner.isFunction || inner.hasFunctionArray
  | .option inner => inner.hasFunctionArray
  | .fn params ret => anyFunctionArray params || ret.hasFunctionArray
  | .int | .float | .string | .bool | .void | .named _ | .unknown => false

/-- Somewhere in one of the types is an array of functions. -/
def anyFunctionArray : List Ty → Bool
  | [] => false
  | t :: ts => t.hasFunctionArray || anyFunctionArray ts

end

/-! ### The tokens of the text -/

mutual

/-- The lexemes of the text that shows the type. -/
def Ty.shown : Ty → List Lexeme
  | .int => [.fixed .intType]
  | .float => [.fixed .floatType]
  | .string => [.fixed .stringType]
  | .bool => [.fixed .boolType]
  | .void => [.fixed .voidType]
  | .fn params ret =>
    .fixed .kwFn :: .fixed .openParen :: separated (shownTys params) ++
      .fixed .closeParen :: .fixed .arrow :: ret.shown
  | .named name => [.name name]
  | .option inner => .name "Option" :: .fixed .less :: inner.shown ++ [.fixed .greater]
  | .array inner => inner.shown ++ [.fixed .openBracket, .fixed .closeBracket]
  | .unknown => []

/-- The lexemes of the texts that show the types of a list. -/
def shownTys : List Ty → List (List Lexeme)
  | [] => []
  | t :: ts => t.shown :: shownTys ts

end

/-- In front of `rest`, the text is cut into tokens with these lexemes. -/
def LexedAs (cs rest : List Char) (ls : List Lexeme) : Prop :=
  ∀ file pos tokens, tokensFrom file (pos + byteLength cs) rest = .ok tokens →
    ∃ ts, tokensFrom file pos (cs ++ rest) = .ok (ts ++ tokens) ∧ ts.map Token.lexeme = ls

section

variable {as bs cs rest : List Char} {ls ms : List Lexeme}

theorem LexedAs.append (ha : LexedAs as (bs ++ rest) ls) (hb : LexedAs bs rest ms) :
    LexedAs (as ++ bs) rest (ls ++ ms) := by
  intro file pos tokens htokens
  rw [byteLength_append, ← Nat.add_assoc] at htokens
  obtain ⟨us, hus, hms⟩ := hb file _ tokens htokens
  obtain ⟨ts, hts, hls⟩ := ha file pos _ hus
  refine ⟨ts ++ us, ?_, by rw [List.map_append, hls, hms]⟩
  rw [List.append_assoc, hts, List.append_assoc]

theorem lexedAs_nil : LexedAs [] rest [] :=
  fun _ _ _ htokens => ⟨[], htokens, rfl⟩

theorem lexedAs_blank : LexedAs [' '] rest [] := by
  intro file pos tokens htokens
  exact ⟨[], (tokensFrom_blank (by decide) rest).trans htokens, rfl⟩

theorem lexedAs_piece {p : Pattern} {kind : TokenKind} {value : String}
    (hfirst : Pattern.first? (cs ++ rest) = some (p, cs.length))
    (htoken : p.token? cs = some (kind, value)) : LexedAs cs rest [⟨kind, value⟩] := by
  intro file pos tokens htokens
  exact ⟨[_], tokensFrom_token hfirst htoken htokens, rfl⟩

theorem lexedAs_word {c : Char} {r : List Char} {kind : TokenKind}
    (hstart : Pattern.isWordStart c = true) (hword : ∀ x ∈ r, Pattern.isWordChar x = true)
    (hkind : TokenKind.OfWord (.ofList (c :: r)) kind)
    (hend : ∀ x ∈ rest.head?, Pattern.isWordChar x = false) :
    LexedAs (c :: r) rest [⟨kind, .ofList (c :: r)⟩] := by
  refine lexedAs_piece (Pattern.first?_word hstart hword hend) ?_
  rw [TokenKind.ofWord_iff.1 hkind]
  rfl

end

namespace Pattern

variable {rest : List Char}

/-- A bracket in front of anything but an equals sign begins no comparison. -/
theorem munch?_comparison {c : Char} {k : TokenKind} (h : ∀ x ∈ rest.head?, x ≠ '=') :
    (mark k [c, '=']).munch? (c :: rest) = none := by
  cases rest with
  | nil => simp [munch?]
  | cons d rest =>
    have hd := h d rfl
    simp [munch?, hd.symm]

theorem first?_less (h : ∀ x ∈ rest.head?, x ≠ '=') :
    first? ('<' :: rest) = some (.mark .less ['<'], 1) := by
  refine first?_of_munch? (all.take 20) (all.drop 21) rfl ?_ rfl
  simp only [all, List.take, List.forall_mem_cons]
  and_intros
  all_goals first | exact munch?_comparison h | exact List.forall_mem_nil _ | rfl

theorem first?_greater (h : ∀ x ∈ rest.head?, x ≠ '=') :
    first? ('>' :: rest) = some (.mark .greater ['>'], 1) := by
  refine first?_of_munch? (all.take 22) (all.drop 23) rfl ?_ rfl
  simp only [all, List.take, List.forall_mem_cons]
  and_intros
  all_goals first | exact munch?_comparison h | exact List.forall_mem_nil _ | rfl

end Pattern

/-- What stands behind a type in the text of another one. -/
def Trails (rest : List Char) : Prop :=
  ∀ c ∈ rest.head?, c ∈ [',', ')', '>', '[']

section

variable {c : Char} {cs rest : List Char}

theorem trails_nil : Trails [] := by
  rintro _ ⟨⟩

theorem trails_cons (h : c ∈ [',', ')', '>', '[']) : Trails (c :: rest) := by
  rintro _ ⟨⟩
  exact h

theorem Trails.isWordChar (h : Trails rest) :
    ∀ c ∈ rest.head?, Pattern.isWordChar c = false := by
  intro c hc
  have hmem := h c hc
  simp only [List.mem_cons, List.not_mem_nil, or_false] at hmem
  rcases hmem with rfl | rfl | rfl | rfl <;> rfl

theorem Trails.ne_equals (h : Trails rest) : ∀ c ∈ rest.head?, c ≠ '=' := by
  rintro _ hc rfl
  exact absurd (h '=' hc) (by decide)

theorem IsName.exists_word {name : String} (h : IsName name) :
    ∃ c r, name.toList = c :: r ∧ Pattern.isWordStart c = true ∧
      (∀ x ∈ r, Pattern.isWordChar x = true) ∧ TokenKind.OfWord (.ofList (c :: r)) .identifier := by
  unfold IsName at h
  generalize name.toList = cs at h
  cases h with
  | word hstart hrest hkind => exact ⟨_, _, rfl, hstart, hrest, hkind⟩
  | mark h => exact absurd h (by simp [Pattern.all])

theorem IsName.lexedAs {name : String} (h : IsName name)
    (hend : ∀ x ∈ rest.head?, Pattern.isWordChar x = false) :
    LexedAs name.toList rest [.name name] := by
  obtain ⟨c, r, hname, hstart, hword, hkind⟩ := h.exists_word
  have hlexed := lexedAs_word hstart hword hkind hend
  rwa [← hname, String.ofList_toList] at hlexed

end

theorem isName_of_all {c : Char} {r : List Char} (hstart : Pattern.isWordStart c = true)
    (hword : r.all Pattern.isWordChar = true)
    (hkind : TokenKind.ofWord (.ofList (c :: r)) = .identifier) : IsName (.ofList (c :: r)) := by
  unfold IsName
  rw [String.toList_ofList]
  exact .word hstart (List.all_eq_true.1 hword) (TokenKind.ofWord_iff.2 hkind.symm)

theorem isName_option : IsName "Option" :=
  isName_of_all (c := 'O') (r := ['p', 't', 'i', 'o', 'n']) rfl rfl (by decide)

/-- No type is shown by a text that begins with an equals sign. -/
theorem Ty.head_text_ne : ∀ (t : Ty), t.Writable → t.Named → ∀ (rest : List Char),
    ∀ c ∈ (t.text.toList ++ rest).head?, c ≠ '='
  | .int, _, _, _ | .float, _, _, _ | .string, _, _, _ | .bool, _, _, _ | .void, _, _, _ => by
    rintro _ ⟨⟩
    decide
  | .fn params ret, _, _, _ => by
    intro c hc
    simp only [text, String.toList_append, List.append_assoc] at hc
    obtain rfl : 'f' = c := Option.some.inj hc
    decide
  | .named name, _, hnamed, rest => by
    obtain ⟨c, r, hname, hstart, -⟩ := (hnamed name (List.mem_singleton_self name)).exists_word
    rw [text, hname]
    rintro _ ⟨⟩ rfl
    cases hstart
  | .option inner, _, _, _ => by
    intro c hc
    simp only [text, String.toList_append, List.append_assoc] at hc
    obtain rfl : 'O' = c := Option.some.inj hc
    decide
  | .array inner, h, hnamed, rest => by
    rw [text, String.toList_append, List.append_assoc]
    exact head_text_ne inner h hnamed _

theorem lexedAs_keyword {c : Char} {r rest : List Char} {kind : TokenKind}
    (hword : (c :: r).all Pattern.isWordChar = true) (hstart : Pattern.isWordStart c = true)
    (hkind : (.ofList (c :: r), kind) ∈ TokenKind.keywords)
    (hend : ∀ x ∈ rest.head?, Pattern.isWordChar x = false) :
    LexedAs (c :: r) rest [⟨kind, .ofList (c :: r)⟩] :=
  lexedAs_word hstart (fun x hx => List.all_eq_true.1 hword x (List.mem_cons_of_mem c hx))
    (.inl hkind) hend

mutual

/-- The text of a type is cut into its lexemes, in front of whatever may stand behind it. -/
theorem lexedAs_text : ∀ (t : Ty), t.Writable → t.Named → ∀ {rest : List Char}, Trails rest →
    LexedAs t.text.toList rest t.shown
  | .int, _, _, _, hrest => lexedAs_keyword rfl rfl (by decide) hrest.isWordChar
  | .float, _, _, _, hrest => lexedAs_keyword rfl rfl (by decide) hrest.isWordChar
  | .string, _, _, _, hrest => lexedAs_keyword rfl rfl (by decide) hrest.isWordChar
  | .bool, _, _, _, hrest => lexedAs_keyword rfl rfl (by decide) hrest.isWordChar
  | .void, _, _, _, hrest => lexedAs_keyword rfl rfl (by decide) hrest.isWordChar
  | .fn params ret, h, hnamed, rest, hrest => by
    obtain ⟨hparams, hret⟩ := Ty.named_fn.1 hnamed
    have htext : (Ty.fn params ret).text.toList =
        ['f', 'n'] ++ (['('] ++ ((", ".intercalate (Ty.texts params)).toList ++
          ([')'] ++ ([' '] ++ (['-', '>'] ++ ([' '] ++ ret.text.toList)))))) := by
      simp [Ty.text]
    have hshown : (Ty.fn params ret).shown =
        [.fixed .kwFn] ++ ([.fixed .openParen] ++ (separated (shownTys params) ++
          ([.fixed .closeParen] ++ ([] ++ ([.fixed .arrow] ++ ([] ++ ret.shown)))))) := by
      simp [Ty.shown]
    rw [htext, hshown]
    refine (lexedAs_keyword rfl rfl (by decide) (by rintro _ ⟨⟩; rfl)).append ?_
    refine (lexedAs_piece rfl rfl).append ?_
    refine (lexedAs_texts params h.1 hparams).append ?_
    refine (lexedAs_piece rfl rfl).append (lexedAs_blank.append ?_)
    refine (lexedAs_piece rfl rfl).append (lexedAs_blank.append ?_)
    exact lexedAs_text ret h.2 hret hrest
  | .named name, _, hnamed, _, hrest =>
    (hnamed name (List.mem_singleton_self name)).lexedAs hrest.isWordChar
  | .option inner, h, hnamed, rest, hrest => by
    have htext : (Ty.option inner).text.toList =
        "Option".toList ++ (['<'] ++ (inner.text.toList ++ ['>'])) := by
      simp [Ty.text]
    have hshown : (Ty.option inner).shown =
        [.name "Option"] ++ ([.fixed .less] ++ (inner.shown ++ [.fixed .greater])) := by
      simp [Ty.shown]
    have hless := Pattern.first?_less (inner.head_text_ne h hnamed (['>'] ++ rest))
    rw [← List.append_assoc] at hless
    rw [htext, hshown]
    refine (isName_option.lexedAs (by rintro _ ⟨⟩; rfl)).append ?_
    refine (lexedAs_piece hless rfl).append ?_
    refine (lexedAs_text inner h hnamed (trails_cons (by decide))).append ?_
    exact lexedAs_piece (Pattern.first?_greater hrest.ne_equals) rfl
  | .array inner, h, hnamed, rest, hrest => by
    have htext : (Ty.array inner).text.toList = inner.text.toList ++ (['['] ++ [']']) := by
      simp [Ty.text]
    have hshown : (Ty.array inner).shown =
        inner.shown ++ ([.fixed .openBracket] ++ [.fixed .closeBracket]) := by
      simp [Ty.shown]
    rw [htext, hshown]
    refine (lexedAs_text inner h hnamed (trails_cons (by decide))).append ?_
    exact (lexedAs_piece rfl rfl).append (lexedAs_piece rfl rfl)

/-- The texts of the parameters are cut into theirs, with commas between them. -/
theorem lexedAs_texts : ∀ (ts : List Ty), TysWritable ts → TysNamed ts → ∀ {rest : List Char},
    LexedAs (", ".intercalate (Ty.texts ts)).toList (')' :: rest) (separated (shownTys ts))
  | [], _, _, _ => lexedAs_nil
  | [t], h, hnamed, rest => by
    obtain ⟨hnamed, -⟩ := tysNamed_cons.1 hnamed
    rw [Ty.texts, Ty.texts, String.intercalate_singleton]
    exact lexedAs_text t h.1 hnamed (trails_cons (by decide))
  | t :: t' :: ts, h, hnamed, rest => by
    obtain ⟨hfirst, hnamed⟩ := tysNamed_cons.1 hnamed
    have htext : (", ".intercalate (Ty.texts (t :: t' :: ts))).toList =
        t.text.toList ++ ([','] ++ ([' '] ++ (", ".intercalate (Ty.texts (t' :: ts))).toList)) := by
      simp [Ty.texts, String.intercalate_cons_cons]
    have hshown : separated (shownTys (t :: t' :: ts)) =
        t.shown ++ ([.fixed .comma] ++ ([] ++ separated (shownTys (t' :: ts)))) := rfl
    rw [htext, hshown]
    refine (lexedAs_text t h.1 hfirst (trails_cons (by decide))).append ?_
    refine (lexedAs_piece rfl rfl).append (lexedAs_blank.append ?_)
    exact lexedAs_texts (t' :: ts) h.2 hnamed

end

/-! ### The type that the text is read as -/

/-- The type with brackets behind its text: those behind a function belong to what it returns. -/
def Ty.suffixed : Ty → Ty
  | .fn params ret => .fn params ret.suffixed
  | t => .array t

/-- The type with `n` pairs of brackets behind its text. -/
def Ty.suffixedBy : Nat → Ty → Ty
  | 0, t => t
  | n + 1, t => t.suffixed.suffixedBy n

mutual

/-- The type that the text of a type is read as. -/
def Ty.reread : Ty → Ty
  | .array inner => inner.reread.suffixed
  | .option inner => .option inner.reread
  | .fn params ret => .fn (rereadTys params) ret.reread
  | .int => .int
  | .float => .float
  | .string => .string
  | .bool => .bool
  | .void => .void
  | .named name => .named name
  | .unknown => .unknown

/-- The types that the texts of a list are read as. -/
def rereadTys : List Ty → List Ty
  | [] => []
  | t :: ts => t.reread :: rereadTys ts

end

theorem Ty.suffixed_of_not_function {t : Ty} (h : t.isFunction = false) :
    t.suffixed = .array t := by
  cases t with
  | fn => cases h
  | _ => rfl

theorem Ty.suffixedBy_fn (n : Nat) (params : List Ty) (ret : Ty) :
    (Ty.fn params ret).suffixedBy n = .fn params (ret.suffixedBy n) := by
  induction n generalizing ret with
  | zero => rfl
  | succ n ih => exact ih ret.suffixed

/-- Pairs of brackets. -/
def brackets : Nat → List Lexeme
  | 0 => []
  | n + 1 => .fixed .openBracket :: .fixed .closeBracket :: brackets n

section

variable {c : Cursor} {ls : List Lexeme}

theorem headKind_brackets_ne (n : Nat) (h : EndsTy ls) : headKind (brackets n ++ ls) ≠ .less := by
  cases n with
  | zero => exact h.1
  | succ => exact headKind_fixed_ne _

theorem readTySuffixes_brackets {t : Ty} {n : Nat} (ht : t.isFunction = false)
    (hc : c.shows = brackets n ++ ls) (hls : EndsTy ls) :
    (readTySuffixes c .default t).Reads ls (· = t.suffixedBy n) := by
  induction n generalizing c t with
  | zero => exact readTySuffixes_stop hc hls
  | succ n ih =>
    have hck : c.kind = .openBracket := kind_of_shows hc
    rw [readTySuffixes, if_pos ⟨hck, by decide⟩, Ty.suffixedBy, Ty.suffixed_of_not_function ht]
    refine Reads.weaken (reads_fixed hc fun _ c' _ hc => reads_fixed hc fun _ c' _ hc => ?_)
    exact ih rfl hc

theorem TyRow.of_no_brackets {row : List Lexeme} {t : Ty}
    (h : TyRow (row ++ brackets 0) (t.suffixedBy 0)) : TyRow row t := by
  rwa [brackets, List.append_nil] at h

/-- A type that is no function takes all brackets behind it. -/
theorem tyRow_of_head {row : List Lexeme} {t : Ty} {n : Nat} (ht : t.isFunction = false)
    (h : ∀ ⦃c : Cursor⦄ ⦃ls : List Lexeme⦄, c.shows = row ++ ls → headKind ls ≠ .less →
      (readTyHead c).Reads ls (· = t)) : TyRow (row ++ brackets n) (t.suffixedBy n) := by
  intro c ls hc hls
  rw [List.append_assoc] at hc
  rw [readTy]
  refine (h hc (headKind_brackets_ne n hls)).andThen ?_
  rintro _ c' _ hc rfl
  exact readTySuffixes_brackets ht hc hls

end

theorem Ty.headKind_shown : ∀ (t : Ty), t.Writable → ∀ (ls : List Lexeme),
    headKind (t.shown ++ ls) ≠ .closeParen
  | .int, _, _ | .float, _, _ | .string, _, _ | .bool, _, _ | .void, _, _ => by rintro ⟨⟩
  | .fn _ _, _, _ | .named _, _, _ | .option _, _, _ => by rintro ⟨⟩
  | .array inner, h, ls => by
    rw [shown, List.append_assoc]
    exact headKind_shown inner h _

mutual

/-- The text of a type is read in front of brackets and whatever ends a type. -/
theorem readTy_shown : ∀ (t : Ty), t.Writable → ∀ (n : Nat),
    TyRow (t.shown ++ brackets n) (t.reread.suffixedBy n)
  | .int, _, n => tyRow_of_head rfl fun _ _ hc _ => readTyHead_primitive rfl hc
  | .float, _, n => tyRow_of_head rfl fun _ _ hc _ => readTyHead_primitive rfl hc
  | .string, _, n => tyRow_of_head rfl fun _ _ hc _ => readTyHead_primitive rfl hc
  | .bool, _, n => tyRow_of_head rfl fun _ _ hc _ => readTyHead_primitive rfl hc
  | .void, _, n => tyRow_of_head rfl fun _ _ hc _ => readTyHead_primitive rfl hc
  | .named _, _, n => tyRow_of_head rfl fun _ _ hc hls => readTyHead_named hc hls
  | .option inner, h, n => by
    have hi := (readTy_shown inner h 0).of_no_brackets
    refine tyRow_of_head rfl fun _ _ hc _ => ?_
    rw [Ty.shown, List.append_assoc] at hc
    rw [Ty.reread]
    exact readTyHead_wrapper (rfl : wrapper? "Option" = some .option) hi hc
  | .array inner, h, n => by
    have hi := readTy_shown inner h (n + 1)
    rwa [Ty.shown, List.append_assoc]
  | .fn params ret, h, n => by
    rw [Ty.reread, Ty.suffixedBy_fn, Ty.shown, List.append_assoc]
    intro c ls hc hls
    rw [readTy]
    refine (readTyHead_fn (paramRows_shown params h.1) (readTy_shown ret h.2 n) hc hls).andThen
      fun t' c' _ hc ht => ?_
    exact ht ▸ readTySuffixes_stop hc hls

theorem paramRows_shown : ∀ (ts : List Ty), TysWritable ts →
    List.Forall₂ ParamRow (shownTys ts) (rereadTys ts)
  | [], _ => .nil
  | t :: ts, h =>
    .cons ⟨(readTy_shown t h.1 0).of_no_brackets, t.headKind_shown h.1⟩ (paramRows_shown ts h.2)

end

/-! ### Which types are read as themselves -/

theorem Ty.suffixed_eq_array_iff {t u : Ty} :
    t.suffixed = .array u ↔ t = u ∧ t.isFunction = false := by
  cases t with
  | fn => simp [suffixed, isFunction]
  | _ => simp [suffixed, isFunction]

mutual

/-- A type is read as itself unless an array of functions is in it. -/
theorem Ty.reread_eq_iff : ∀ (t : Ty), t.reread = t ↔ t.hasFunctionArray = false
  | .int | .float | .string | .bool | .void | .named _ | .unknown => by
    simp [Ty.reread, Ty.hasFunctionArray]
  | .option inner => by
    simp [Ty.reread, Ty.hasFunctionArray, Ty.reread_eq_iff inner]
  | .array inner => by
    have hi := Ty.reread_eq_iff inner
    rw [Ty.reread, Ty.suffixed_eq_array_iff, Ty.hasFunctionArray, Bool.or_eq_false_iff, ← hi,
      and_comm]
    exact and_congr_left fun h => by rw [h]
  | .fn params ret => by
    simp [Ty.reread, Ty.hasFunctionArray, Ty.reread_eq_iff ret, rereadTys_eq_iff params]

theorem rereadTys_eq_iff : ∀ (ts : List Ty), rereadTys ts = ts ↔ anyFunctionArray ts = false
  | [] => by simp [rereadTys, anyFunctionArray]
  | t :: ts => by
    simp [rereadTys, anyFunctionArray, Ty.reread_eq_iff t, rereadTys_eq_iff ts]

end

/-! ### Reading the text -/

/-- The text of a type is read as one type, up to its end. -/
theorem exists_readTy_text {t : Ty} (h : t.Writable) (hnamed : t.Named) (file : String) :
    ∃ s, tokenize file t.text.toList = .ok s ∧ ∀ n,
      (readTy (.ofStream s n) .default).Reads [] (· = t.reread) := by
  have hend : tokensFrom file (0 + byteLength t.text.toList) [] = .ok [] := by rw [tokensFrom]
  obtain ⟨ts, hts, hshown⟩ := lexedAs_text t h hnamed trails_nil file 0 [] hend
  rw [List.append_nil, List.append_nil] at hts
  refine ⟨⟨file, ts, byteLength t.text.toList⟩, by rw [tokenize, hts], fun n => ?_⟩
  have hc : (Cursor.ofStream ⟨file, ts, byteLength t.text.toList⟩ n).shows =
      t.shown ++ brackets 0 ++ [] := by
    rw [brackets, List.append_nil, List.append_nil]
    exact hshown
  exact readTy_shown t h 0 hc ⟨by decide, by decide⟩

/-- Types without arrays of functions are shown by texts of their own. -/
theorem Ty.eq_of_text_eq {t u : Ty} (ht : t.Writable) (htnamed : t.Named) (hu : u.Writable)
    (hunamed : u.Named) (h : t.text = u.text) (htfn : t.hasFunctionArray = false)
    (hufn : u.hasFunctionArray = false) : t = u := by
  obtain ⟨s, hs, hread⟩ := exists_readTy_text ht htnamed ""
  obtain ⟨s', hs', hread'⟩ := exists_readTy_text hu hunamed ""
  rw [h] at hs
  cases hs.symm.trans hs'
  obtain ⟨_, ho, -, rfl⟩ := hread 0
  obtain ⟨_, ho', -, rfl⟩ := hread' 0
  rw [← (Ty.reread_eq_iff t).2 htfn, ← (Ty.reread_eq_iff u).2 hufn]
  exact Except.ok.inj (ho.symm.trans ho')

/-- **The text of a type is read back as the type**, unless an array of functions is in it. So two
types are shown alike only if such an array is in one of them. -/
theorem readTy_text (file : String) {t : Ty} (h : t.Writable) (hnamed : t.Named) :
    (∃ s, tokenize file t.text.toList = .ok s ∧ ∀ n, ∃ u,
      (readTy (.ofStream s n) .default).outcome = .ok u ∧
      (readTy (.ofStream s n) .default).next.kind = .eof ∧
      (u = t ↔ t.hasFunctionArray = false)) ∧
    ∀ u : Ty, u.Writable → u.Named → u ≠ t → u.text = t.text →
      t.hasFunctionArray = true ∨ u.hasFunctionArray = true := by
  constructor
  · obtain ⟨s, hs, hread⟩ := exists_readTy_text h hnamed file
    refine ⟨s, hs, fun n => ?_⟩
    obtain ⟨u, ho, hrest, rfl⟩ := hread n
    exact ⟨t.reread, ho, kind_of_shows hrest, Ty.reread_eq_iff t⟩
  · intro u hu hunamed hne htext
    by_contra hnone
    simp only [not_or, Bool.not_eq_true] at hnone
    exact hne (Ty.eq_of_text_eq hu hunamed h hnamed htext hnone.2 hnone.1)

/-- Functions that return an array are shown as an array of functions is, and read as the former.
The name of a wrapper is that of a class here. -/
theorem readTy_text_brackets :
    let t : Ty := .array (.fn [.named "Option"] .int)
    let u : Ty := .fn [.named "Option"] (.array .int)
    t.text = "fn(Option) -> int[]" ∧ u.text = t.text ∧
      (∃ s, tokenize "a" t.text.toList = .ok s ∧ ∀ n, ∃ v,
        (readTy (.ofStream s n) .default).outcome = .ok v ∧
        (readTy (.ofStream s n) .default).next.kind = .eof ∧
        (v = t ↔ t.hasFunctionArray = false)) ∧
      (t.hasFunctionArray = true ∨ u.hasFunctionArray = true) := by
  intro t u
  have ht : t.Named := List.forall_mem_singleton.2 isName_option
  have hu : u.Named := List.forall_mem_singleton.2 isName_option
  have hread := readTy_text "a" (t := t) ⟨⟨trivial, trivial⟩, trivial⟩ ht
  exact ⟨by decide, by decide, hread.1,
    hread.2 u ⟨⟨trivial, trivial⟩, trivial⟩ hu (by decide) (by decide)⟩

end MgLang
