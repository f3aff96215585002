import Mathlib.Data.List.Perm.Subperm
import MgLang.Proofs.Numbering
import MgLang.Proofs.Spots
/-!
# Names that are read

Whatever a reader does, it goes over tokens one after the other and stays in the file, and the names
by which what it reads refers to declarations are among the identifiers that it went over
(`Step.Finds`, `Used`). There is one lemma for each reader, up to `readItems_finds` on a whole text.
What `spots_of_parseSource` says of a text that can be read is that each of its names is written in
it, and no two in the same place.
-/

namespace MgLang

/-! ### Names of expressions -/

/-- The name by which an expression refers to a declaration, where it stands. -/
def Expr.spot? : Expr → Option Spot
  | .ident node name => some ⟨name, node.span⟩
  | .new _ className classSpan _ => some ⟨className, classSpan⟩
  | _ => none

/-- The names by which expressions refer to declarations. -/
def spots (es : List Expr) : List Spot :=
  es.filterMap Expr.spot?

theorem spots_append (es es' : List Expr) : spots (es ++ es') = spots es ++ spots es' :=
  List.filterMap_append

/-- The names of the expressions are among those found after `seen` up to `found`. -/
def Used (seen found : List Spot) (es : List Expr) : Prop :=
  (seen ++ spots es).Subperm found

namespace Used

variable {seen found found' : List Spot} {es es' : List Expr}

theorem nil (seen : List Spot) : Used seen seen [] :=
  (List.Perm.of_eq (List.append_nil seen)).subperm

theorem append (h : Used seen found es) (h' : Used found found' es') :
    Used seen found' (es ++ es') := by
  unfold Used
  rw [spots_append, ← List.append_assoc]
  exact ((List.subperm_append_right (spots es')).2 h).trans h'

/-- Most expressions have no name of their own. -/
theorem expr (h : Used seen found es) {e : Expr} (he : e.spot? = none) :
    Used seen found (es ++ [e]) := by
  have hs : spots [e] = [] := List.filterMap_cons_none he
  unfold Used
  rwa [spots_append, hs, List.append_nil]

/-- An expression whose own name is found before the others. -/
theorem named {x : Spot} (h : Used (seen ++ [x]) found es) {e : Expr} (he : e.spot? = some x) :
    Used seen found (es ++ [e]) := by
  have hs : spots [e] = [x] := List.filterMap_cons_some he
  unfold Used
  rw [spots_append, hs]
  refine List.Subperm.trans (List.Perm.subperm ?_) h
  rw [List.append_assoc]
  exact List.perm_append_comm.append_left seen

theorem mono (h : Used seen found es) (hs : found.Subperm found') : Used seen found' es :=
  h.trans hs

/-- The order does not matter. -/
theorem perm (h : Used seen found es) (he : es.Perm es') : Used seen found es' :=
  ((he.filterMap _).append_left seen).symm.subperm.trans h

end Used

/-! ### What a reader finds -/

namespace Step

variable {α β : Type} {j k : Nat} {c : Cursor} {file : String} {seen : List Spot}
  {P : List Spot → α → Prop} {Q : List Spot → β → Prop}

/-- The reader goes over tokens of the file. What it reads satisfies `P` together with what has been
found by then: what was `seen` and some of the identifiers that it went over. -/
def Finds (x : Step k c α) (file : String) (seen : List Spot) (P : List Spot → α → Prop) : Prop :=
  c.file = file → x.next.file = file ∧ ∃ ts, c.rest = ts ++ x.next.rest ∧
    ∀ a, x.outcome = .ok a → ∃ found, found.Subperm (identifiersIn file ts) ∧ P (seen ++ found) a

/-- Whatever it finds, a reader goes on in the file. -/
theorem Finds.suffix {x : Step k c α} (h : x.Finds c.file seen P) : x.next.rest <:+ c.rest := by
  obtain ⟨-, ts, hts, -⟩ := h rfl
  exact ⟨ts, hts.symm⟩

theorem Finds.done {a : α} (h : P seen a) : (done c a).Finds file seen P := by
  intro hc
  refine ⟨hc, [], rfl, ?_⟩
  rintro _ ⟨⟩
  exact ⟨[], List.nil_subperm, (List.append_nil seen).symm ▸ h⟩

theorem Finds.fail {d : Diagnostic} {c' : Cursor} (h : c.LeadsTo c') :
    (fail d c' : Step k c α).Finds file seen P := by
  intro hc
  obtain ⟨ts, hts⟩ := h.rest
  exact ⟨h.file.trans hc, ts, hts.symm, fun _ ha => nomatch ha⟩

theorem Finds.failHere {d : Diagnostic} : (Step.fail d c : Step k c α).Finds file seen P :=
  .fail (.refl c)

theorem Finds.andThen {x : Step k c α}
    {f : α → (c' : Cursor) → c'.weight + k ≤ c.weight → Step j c' β} (hx : x.Finds file seen P)
    (hf : ∀ a c' h seen, P seen a → (f a c' h).Finds file seen Q) :
    (x.andThen f).Finds file seen Q := by
  intro hc
  obtain ⟨out, next, progress⟩ := x
  obtain ⟨hnext, ts, hts, hp⟩ := hx hc
  cases out with
  | error d => exact ⟨hnext, ts, hts, fun _ hb => nomatch hb⟩
  | ok a =>
    obtain ⟨found, hfound, ha⟩ := hp a rfl
    obtain ⟨hnext', us, hus, hq⟩ := hf a next (progress a rfl) _ ha hnext
    refine ⟨hnext', ts ++ us, ?_, fun b hb => ?_⟩
    · rw [List.append_assoc]
      exact hts.trans (congrArg _ hus)
    · obtain ⟨found', hfound', hb⟩ := hq b hb
      refine ⟨found ++ found', ?_, ?_⟩
      · rw [identifiersIn_append]
        exact hfound.append hfound'
      · rwa [← List.append_assoc]

theorem Finds.mono {P' : List Spot → α → Prop} {x : Step k c α} (hx : x.Finds file seen P)
    (h : ∀ seen a, P seen a → P' seen a) : x.Finds file seen P' := by
  intro hc
  obtain ⟨hnext, ts, hts, hp⟩ := hx hc
  refine ⟨hnext, ts, hts, fun a ha => ?_⟩
  obtain ⟨found, hfound, hpa⟩ := hp a ha
  exact ⟨found, hfound, h _ a hpa⟩

/-- Nothing of what a reader only steps over need be found. -/
theorem Advances.finds {x : Step k c α} (h : x.Advances) :
    x.Finds file seen fun found _ => found = seen := by
  intro hc
  obtain ⟨ts, hts⟩ := Cursor.LeadsTo.rest h
  refine ⟨(Cursor.LeadsTo.file h).trans hc, ts, hts.symm, fun a _ => ?_⟩
  exact ⟨[], List.nil_subperm, List.append_nil seen⟩

/-- What is read first holds no expression. -/
theorem Finds.behind {x : Step k c α}
    {f : α → (c' : Cursor) → c'.weight + k ≤ c.weight → Step j c' β} (hx : x.Advances)
    (hf : ∀ a c' h, (f a c' h).Finds file seen Q) : (x.andThen f).Finds file seen Q := by
  refine hx.finds.andThen ?_
  rintro a c' h _ rfl
  exact hf a c' h

/-- What may be read first holds no expression. -/
theorem Finds.behindOpt {x : Step 0 c α}
    {f : α → (c' : Cursor) → c'.weight ≤ c.weight → Step k c' β} (hx : x.Advances)
    (hf : ∀ a c' h, (f a c' h).Finds file seen Q) : (x.optThen f).Finds file seen Q := by
  have h : (x.andThen f).Finds file seen Q := .behind hx hf
  obtain ⟨out, next, progress⟩ := x
  cases out with
  | error d => exact h
  | ok a => exact h

theorem Finds.weaken {x : Step k c α} (h : x.Finds file seen P) : x.weaken.Finds file seen P := h

theorem Finds.moved {x : Step (k + 1) c α} (h : x.Finds file seen P) : x.moved.Finds file seen P :=
  h

theorem Finds.map {f : α → β} {x : Step k c α}
    (h : x.Finds file seen fun found a => Q found (f a)) :
    (x.map f).Finds file seen Q :=
  h.andThen fun _ _ _ _ ha => .done ha

theorem Finds.build {span : Span} {f : Node → α} (h : ∀ n, P seen (f ⟨n, span⟩)) :
    (c.build span f).Finds file seen P := by
  intro hc
  refine ⟨hc, [], rfl, ?_⟩
  rintro _ ⟨⟩
  exact ⟨[], List.nil_subperm, (List.append_nil seen).symm ▸ h _⟩

/-- A reading of another text goes over no token of this one. -/
theorem Finds.inside {inner : Cursor} {x : Step k inner α} (h : inner.file = c.file)
    (hx : x.Finds file [] P) :
    (Step.inside c x).Finds file seen fun found a =>
      found = seen ∧ ∃ part, part.Subperm (identifiersIn file inner.rest) ∧ P part a := by
  intro hc
  obtain ⟨-, ts, hts, hp⟩ := hx (h.trans hc)
  refine ⟨hc, [], rfl, fun a ha => ?_⟩
  obtain ⟨part, hpart, hpa⟩ := hp a ha
  refine ⟨[], List.nil_subperm, List.append_nil seen, part, hpart.trans ?_, hpa⟩
  rw [hts, identifiersIn_append]
  exact (List.sublist_append_left _ _).subperm

/-- The file may be taken to be that of the cursor. -/
theorem Finds.inFile {x : Step k c α} (h : c.file = file → x.Finds file seen P) :
    x.Finds file seen P :=
  fun hc => h hc hc

/-- Something that is there. -/
theorem Finds.present {P : List Spot → Option α → Prop} {x : Step k c α}
    (h : x.Finds file seen fun found a => P found (some a)) :
    (x.weaken.map some).Finds file seen P :=
  .map h.weaken

end Step

open Step (Finds)

open Cursor (expect_advances expectOr_advances expectName_advances expectKind_advances
  accept_advances)

namespace Cursor

variable {c : Cursor} {file : String} {seen : List Spot}

theorem take_finds (h : c.kind ≠ .eof) :
    (c.take h).Finds file seen fun found t =>
      t = c.current ∧ found = seen ++ t.identifiers file := by
  intro hc
  refine ⟨(file_advance c).trans hc, [c.current], rest_eq_current_cons h, ?_⟩
  rintro _ ⟨⟩
  refine ⟨identifiersIn file [c.current], .refl _, rfl, ?_⟩
  rw [identifiersIn_eq_flatMap, List.flatMap_singleton]

/-- A name is found. -/
theorem expectName_finds (message : String) :
    (c.expectName message).Finds file seen fun found t => found = seen ++ [⟨t.value, t.span⟩] := by
  unfold expectName expectOr
  split
  · next h =>
    refine (take_finds _).mono ?_
    rintro found t ⟨rfl, hfound⟩
    rwa [Token.identifiers_of_identifier file h.1] at hfound
  · exact .failHere

end Cursor

/-! ### Expressions and statements -/

theorem Token.literal_used {t : Token} {f : Node → Expr} (h : t.literal = .ok f) (file : String)
    (seen : List Spot) (n : Nat) :
    Used seen (seen ++ t.identifiers file) (f ⟨n, t.span⟩).within := by
  have hnone {e : Expr} (he : e.spot? = none) : Used seen (seen ++ t.identifiers file) [e] :=
    ((Used.nil seen).expr he).mono (List.sublist_append_left _ _).subperm
  unfold Token.literal at h
  split at h
  · split at h
    · cases h
      exact hnone rfl
    · cases h
  · cases h
    exact hnone rfl
  · cases h
    exact hnone rfl
  · cases h
    exact hnone rfl
  · cases h
    exact hnone rfl
  · cases h
    exact hnone rfl
  · cases h
    exact hnone rfl
  · next hk =>
    cases h
    rw [Token.identifiers_of_identifier file hk]
    exact (Used.nil _).named rfl
  · cases h

variable {file : String}

theorem readLiteral_finds (c : Cursor) (seen : List Spot) :
    (readLiteral c).Finds file seen fun found e => Used seen found e.within := by
  unfold readLiteral
  split
  · exact .fail c.leadsTo_advance
  · next f hf =>
    refine (Cursor.take_finds _).andThen ?_
    rintro _ c' h _ ⟨rfl, rfl⟩
    exact .build fun n => Token.literal_used hf file seen n

mutual

theorem readExpr_finds (c : Cursor) (power : Power) (seen : List Spot) :
    (readExpr c power).Finds file seen fun found e => Used seen found e.within := by
  rw [readExpr]
  refine (readOperand_finds c seen).andThen ?_
  intro left c' _ found hl
  exact readContinuations_finds c' power hl
termination_by 8 * c.weight + 5
decreasing_by all_goals omega

theorem readOperand_finds (c : Cursor) (seen : List Spot) :
    (readOperand c).Finds file seen fun found e => Used seen found e.within := by
  rw [readOperand]
  split
  iterate 8 exact readLiteral_finds c seen
  · next h => exact readInterpolated_finds c h seen
  · refine .behind (expect_advances _) fun token c' _ => ?_
    refine .behind (expect_advances _) fun _ c' _ => ?_
    refine (readExpr_finds c' .default seen).andThen fun inner c' _ found hi => ?_
    exact .behind (expect_advances _) fun _ c' _ => .build fun _ => hi.expr rfl
  · exact readUnary_finds c .dash .negate seen
  · exact readUnary_finds c .not .not seen
  · refine .behind (expect_advances _) fun _ c' _ => ?_
    refine (readExpr_finds c' .default seen).andThen fun inner c' _ found hi => ?_
    exact .behind (expect_advances _) fun _ _ _ => .done hi
  · refine .behind (expect_advances _) fun token c' _ => ?_
    refine (readArgs_finds c' .closeBracket seen).andThen fun items c' _ found hs => ?_
    exact .build fun _ => hs.expr rfl
  · refine .behind (expect_advances _) fun token c' _ => ?_
    refine (Cursor.expectName_finds _).andThen ?_
    rintro name c' _ _ rfl
    refine .behind (expect_advances _) fun _ c' _ => ?_
    refine (readArgs_finds c' .closeParen _).andThen fun args c' _ found hs => ?_
    exact .build fun _ => hs.named rfl
  · refine .behind (expect_advances _) fun token c' _ => ?_
    refine .behind (readParams_advances c') fun params c' _ => ?_
    refine .behind (readReturnTy_advances c') fun ret c' _ => ?_
    refine (readBlock_finds c' seen).andThen fun body c' _ found hb => ?_
    exact .build fun _ => hb.expr rfl
  · exact .failHere
termination_by 8 * c.weight + 4
decreasing_by all_goals omega

theorem readUnary_finds (c : Cursor) (kind : TokenKind) (op : UnaryOp) (seen : List Spot) :
    (readUnary c kind op).Finds file seen fun found e => Used seen found e.within := by
  rw [readUnary]
  refine .behind (expect_advances _) fun token c' _ => ?_
  refine (readExpr_finds c' .unary seen).andThen fun operand c' _ found ho => ?_
  exact .build fun _ => ho.expr rfl
termination_by 8 * c.weight + 1
decreasing_by all_goals omega

theorem readInterpolated_finds (c : Cursor) (h : c.kind = .interpolated) (seen : List Spot) :
    (readInterpolated c h).Finds file seen fun found e => Used seen found e.within := by
  rw [readInterpolated]
  have htake : (c.takeInterpolated h).Finds file seen fun found t =>
      t = c.current ∧ found = seen ++ t.identifiers file :=
    Cursor.take_finds (by rw [h]; decide)
  refine Finds.moved (htake.andThen ?_)
  rintro _ c' _ _ ⟨rfl, rfl⟩
  refine (readParts_finds c' c.current _ _).andThen ?_
  rintro parts c' _ _ ⟨rfl, hparts⟩
  rw [← Token.identifiers_of_interpolated file h] at hparts
  have hu : Used seen (seen ++ c.current.identifiers file) (partsWithin parts) :=
    (List.subperm_append_left seen).2 hparts
  exact .build fun _ => hu.expr rfl
termination_by 8 * c.weight + 1
decreasing_by
  have := Piece.totalWeight_split_le 0 c.current.value.toList
  simp only [String.length_toList] at this
  omega

/-- The names in the holes of an interpolated string are among those that its token holds. -/
theorem readParts_finds (c : Cursor) (token : Token) (pieces : List Piece) (seen : List Spot) :
    (readParts c token pieces).Finds file seen fun found parts => found = seen ∧
      (spots (partsWithin parts)).Subperm
        (identifiersInPieces file (token.span.start + 2) pieces) := by
  match pieces with
  | [] =>
    rw [readParts]
    exact .done ⟨rfl, List.nil_subperm⟩
  | .text raw :: ps =>
    rw [readParts]
    refine .map ((readParts_finds c token ps seen).mono ?_)
    rintro _ parts ⟨rfl, hps⟩
    rw [identifiersInPieces, Piece.identifiers]
    exact ⟨rfl, hps⟩
  | .hole offset source :: ps =>
    rw [readParts]
    refine .inFile fun hc => ?_
    split
    · exact .failHere
    · next stream lexed =>
      have hw : stream.weight ≤ source.length := weight_le_length lexed
      let inner := Cursor.ofStream (stream.shift (token.span.start + 2 + offset)) c.nextId
      have hfile : inner.file = c.file := (file_of_tokenize lexed :)
      rw [hc] at lexed
      refine Finds.andThen (Finds.inside (P := fun found value => Used [] found value.within) hfile
        ((readExpr_finds _ .default []).andThen fun value c' _ found hv =>
          .behind (expectKind_advances _ _) fun _ _ _ => .done hv)) ?_
      rintro value c' _ _ ⟨rfl, part, hpart, hv⟩
      refine (readParts_finds c' token ps _).andThen ?_
      rintro parts _ _ _ ⟨rfl, hps⟩
      refine .done ⟨rfl, ?_⟩
      have hhole : (spots value.within).Subperm
          ((Piece.hole offset source).identifiers file (token.span.start + 2)) := by
        rw [Piece.identifiers_of_hole _ _ lexed]
        exact hv.trans hpart
      show (spots (value.within ++ partsWithin parts)).Subperm _
      rw [identifiersInPieces, spots_append]
      exact hhole.append hps
  | .unclosed :: ps =>
    rw [readParts]
    exact .failHere
termination_by 8 * Piece.totalWeight pieces + 6
decreasing_by
  · simp only [Piece.weight, Piece.totalWeight_cons]
    omega
  · simp only [Piece.weight, Piece.totalWeight_cons, Cursor.weight_ofStream,
      TokenStream.weight_shift]
    omega
  · simp only [Piece.weight, Piece.totalWeight_cons]
    omega

theorem readContinuations_finds (c : Cursor) (power : Power) {left : Expr} {seen found : List Spot}
    (hl : Used seen found left.within) :
    (readContinuations c power left).Finds file found fun found e => Used seen found e.within := by
  rw [readContinuations]
  split
  · exact .done hl
  · next k hk =>
    split
    · exact .done hl
    · refine Finds.weaken ((readContinuation_finds c k hl _).andThen fun left c' _ found hl => ?_)
      exact readContinuations_finds c' power hl
termination_by 8 * c.weight + 2
decreasing_by all_goals omega

theorem readContinuation_finds (c : Cursor) (k : Continuation) {left : Expr}
    {seen found : List Spot} (hl : Used seen found left.within) (ne : c.kind ≠ .eof) :
    (readContinuation c k left ne).Finds file found fun found e => Used seen found e.within := by
  rw [readContinuation]
  refine .behind (Cursor.take_advances ne) fun _ c' _ => ?_
  cases k with
  | assign =>
    refine Finds.weaken ((readExpr_finds c' .comma found).andThen fun value c' _ _ hv => ?_)
    exact .build fun _ => (hl.append hv).expr rfl
  | binary op =>
    refine Finds.weaken ((readExpr_finds c' op.power found).andThen fun right c' _ _ hr => ?_)
    exact .build fun _ => (hl.append hr).expr rfl
  | call =>
    refine (readArgs_finds c' .closeParen found).andThen fun args c' _ _ hs => ?_
    exact .build fun _ => (hl.append hs).expr rfl
  | index =>
    refine Finds.weaken ((readExpr_finds c' .default found).andThen fun index c' _ _ hi => ?_)
    exact .behind (expect_advances _) fun _ c' _ => .build fun _ => (hl.append hi).expr rfl
  | member =>
    refine Finds.weaken (.behind (expectName_advances _) fun name c' _ => ?_)
    exact .build fun _ => hl.expr rfl
termination_by 8 * c.weight + 1
decreasing_by all_goals omega

theorem readArgs_finds (c : Cursor) (close : TokenKind) (seen : List Spot) :
    (readArgs c close).Finds file seen fun found es => Used seen found (exprsWithin es) := by
  rw [readArgs]
  split
  · exact .behind (expectKind_advances _ _) fun _ _ _ => .done (.nil seen)
  · refine Finds.weaken ((readExpr_finds c .comma seen).andThen fun arg c' _ found ha => ?_)
    refine .behind (accept_advances _) fun comma c' _ => ?_
    split
    · refine (readArgs_finds c' close found).andThen fun args _ _ _ hs => ?_
      exact .done (ha.append hs)
    · exact .behind (expectKind_advances _ _) fun _ _ _ => .done (ha.append (.nil found))
termination_by 8 * c.weight + 6
decreasing_by all_goals omega

theorem readBlock_finds (c : Cursor) (seen : List Spot) :
    (readBlock c).Finds file seen fun found b => Used seen found b.within := by
  rw [readBlock]
  refine .behind (expect_advances _) fun token c' _ => ?_
  exact (readStmts_finds c' seen).andThen fun stmts c' _ _ hs => .done hs
termination_by 8 * c.weight + 3
decreasing_by all_goals omega

theorem readStmts_finds (c : Cursor) (seen : List Spot) :
    (readStmts c).Finds file seen fun found ss => Used seen found (stmtsWithin ss) := by
  rw [readStmts]
  split
  · exact .behind (expect_advances _) fun _ _ _ => .done (.nil seen)
  · exact .failHere
  · refine (readStmt_finds c seen).andThen fun stmt c' _ found hs => ?_
    refine (readStmts_finds c' found).andThen fun stmts _ _ _ hss => ?_
    exact .done (hs.append hss)
termination_by 8 * c.weight + 7
decreasing_by all_goals omega

theorem readStmt_finds (c : Cursor) (seen : List Spot) :
    (readStmt c).Finds file seen fun found s => Used seen found s.within := by
  rw [readStmt]
  split
  · refine .behind (expect_advances _) fun token c' _ => ?_
    refine .behind (accept_advances _) fun mutable c' _ => ?_
    refine .behind (expectName_advances _) fun name c' _ => ?_
    refine .behind (accept_advances _) fun colon c' _ => .behind ?_ fun ty c' _ => ?_
    · split
      · exact .map (readTy_advances c' .default).weaken
      · exact .done _
    refine .behind (expectOr_advances _ _) fun _ c' _ => ?_
    refine (readExpr_finds c' .default seen).andThen fun value c' _ found hv => ?_
    exact .behind (expect_advances _) fun _ c' _ => .done hv
  · refine .behind (expect_advances _) fun token c' _ => ?_
    have hv : (if c'.kind = .semicolon then .done c' none
        else (readExpr c' .default).weaken.map some : Step 0 c' (Option Expr)).Finds file seen
          fun found value => ∀ span, Used seen found (Stmt.returnStmt value span).within := by
      split
      · exact .done fun _ => .nil seen
      · refine .present ((readExpr_finds c' .default seen).mono ?_)
        intro found value hv _
        exact hv
    exact hv.andThen fun value c' _ found hv => .behind (expect_advances _) fun _ c' _ =>
      .done (hv _)
  · exact readIf_finds c seen
  · refine .behind (expect_advances _) fun token c' _ => ?_
    refine (readExpr_finds c' .default seen).andThen fun condition c' _ found hc => ?_
    refine (readBlock_finds c' found).andThen fun body c' _ found hb => ?_
    exact .done (hc.append hb)
  · refine .behind (expect_advances _) fun token c' _ => ?_
    refine .behind (accept_advances _) fun parenthesised c' _ => ?_
    refine .behind (expectName_advances _) fun name c' _ => ?_
    refine .behind (expect_advances _) fun _ c' _ => ?_
    refine (readExpr_finds c' .default seen).andThen fun iterable c' _ found hi => ?_
    refine .behind ?_ fun _ c' _ => ?_
    · split
      · exact .map (expect_advances _).weaken
      · exact .done _
    refine (readBlock_finds c' found).andThen fun body c' _ found hb => ?_
    exact .done (hi.append hb)
  · refine .behind (expect_advances _) fun token c' _ => ?_
    refine (readExpr_finds c' .default seen).andThen fun scrutinee c' _ found hs => ?_
    refine .behind (expect_advances _) fun _ c' _ => ?_
    refine (readArms_finds c' found).andThen fun arms c' _ found ha => ?_
    exact .done (hs.append ha)
  · exact .map ((readBlock_finds c seen).mono fun _ _ hb => hb)
  · refine (readExpr_finds c .default seen).andThen fun value c' _ found hv => ?_
    exact .behind (expect_advances _) fun _ _ _ => .done hv
termination_by 8 * c.weight + 6
decreasing_by all_goals omega

theorem readIf_finds (c : Cursor) (seen : List Spot) :
    (readIf c).Finds file seen fun found s => Used seen found s.within := by
  rw [readIf]
  refine .behind (expect_advances _) fun token c' _ => ?_
  refine (readExpr_finds c' .default seen).andThen fun condition c' _ found hc => ?_
  refine (readBlock_finds c' found).andThen fun body c' _ found hb => ?_
  refine .behind (accept_advances _) fun otherwise c' _ => ?_
  have ho : (if otherwise then
        if c'.kind = .kwIf then (readIf c').weaken.map some
        else (readBlock c').weaken.map fun b => some (.block b)
      else .done c' none : Step 0 c' (Option Stmt)).Finds file found
        fun found o => ∀ span, Used seen found (Stmt.ifStmt condition body o span).within := by
    split
    · split
      · refine .present ((readIf_finds c' found).mono ?_)
        intro _ s hs span
        exact (hc.append hb).append hs
      · refine .map (Finds.weaken ((readBlock_finds c' found).mono ?_))
        intro _ b hs span
        exact (hc.append hb).append hs
    · exact .done fun span => hc.append hb
  exact ho.andThen fun otherwise c' _ _ ho => .done (ho _)
termination_by 8 * c.weight + 5
decreasing_by all_goals omega

theorem readArms_finds (c : Cursor) (seen : List Spot) :
    (readArms c).Finds file seen fun found as => Used seen found (armsWithin as) := by
  rw [readArms]
  split
  · exact .behind (expect_advances _) fun _ _ _ => .done (.nil seen)
  · refine (readArm_finds c seen).andThen fun arm c' _ found ha => ?_
    refine .behind (accept_advances _) fun _ c' _ => ?_
    refine (readArms_finds c' found).andThen fun arms _ _ _ has => ?_
    obtain ⟨pattern, body, span⟩ := arm
    exact .done (ha.append has)
termination_by 8 * c.weight + 7
decreasing_by all_goals omega

theorem readArm_finds (c : Cursor) (seen : List Spot) :
    (readArm c).Finds file seen fun found a => Used seen found a.body.within := by
  rw [readArm]
  refine .behind (readArmPattern_advances c) fun pattern c' _ => ?_
  refine .behind (expect_advances _) fun _ c' _ => ?_
  have hb : (if c'.kind = .openCurly then readBlock c'
      else
        (readExpr c' .default).andThen fun value c _ =>
          (c.accept .semicolon).map fun _ => ⟨[.expr value], value.span⟩ : Step 1 c' Block).Finds
        file seen fun found b => Used seen found b.within := by
    split
    · exact readBlock_finds c' seen
    · refine (readExpr_finds c' .default seen).andThen fun value c' _ found hv => ?_
      exact .behind (accept_advances _) fun _ _ _ => .done (hv.append (.nil found))
  exact hb.andThen fun body c' _ _ hb => .done hb
termination_by 8 * c.weight + 6
decreasing_by all_goals omega

end

/-! ### Declarations -/

theorem readFunction_finds (c : Cursor) (start : Nat) (isPublic isStatic : Bool)
    (seen : List Spot) :
    (readFunction c start isPublic isStatic).Finds file seen
      fun found f => Used seen found f.body.within := by
  refine .behind (expect_advances _) fun _ c' _ => ?_
  refine .behind (expectName_advances _) fun name c' _ => ?_
  refine .behind (readParams_advances c') fun params c' _ => ?_
  refine .behind (readReturnTy_advances c') fun ret c' _ => ?_
  exact (readBlock_finds c' seen).andThen fun body c' _ _ hb => .done hb

theorem readField_finds (c : Cursor) (start : Nat) (isPublic isStatic : Bool) (seen : List Spot) :
    (readField c start isPublic isStatic).Finds file seen
      fun found f => Used seen found (exprsWithin f.initial.toList) := by
  refine .behind (expect_advances _) fun name c' _ => .behind (expect_advances _) fun _ c' _ => ?_
  refine .behind (readTy_advances c' .default) fun ty c' _ => ?_
  refine .behind (accept_advances _) fun assigned c' _ => ?_
  have hi : (if assigned then (readExpr c' .default).weaken.map some else .done c' none :
      Step 0 c' (Option Expr)).Finds file seen
        fun found o => Used seen found (exprsWithin o.toList) := by
    split
    · refine .present ((readExpr_finds c' .default seen).mono ?_)
      intro found value hv
      exact hv.append (.nil found)
    · exact .done (.nil seen)
  refine hi.andThen fun initial c' _ _ hi => ?_
  exact .behind (expect_advances _) fun _ _ _ => .done hi

theorem readMembers_finds (c : Cursor) (seen : List Spot) :
    (readMembers c).Finds file seen fun found ms => Used seen found (ms.flatMap Member.within) := by
  rw [readMembers]
  split
  · exact .behind (expect_advances _) fun _ _ _ => .done (.nil seen)
  · refine .behindOpt (readVisibility_advances c) fun visibility c' _ => ?_
    refine .behindOpt (accept_advances _) fun isStatic c' _ => ?_
    refine Finds.andThen (P := fun found x => Used seen found (Member.within x)) ?_
      fun x c' _ found hx => ?_
    · split
      · exact .map (readFunction_finds _ _ _ _ seen)
      · exact .map (readField_finds _ _ _ _ seen)
      · exact .failHere
    · refine (readMembers_finds c' found).andThen fun ms _ _ _ hms => ?_
      exact .done (hx.append hms)
termination_by c.weight
decreasing_by all_goals omega

/-- The expressions within the members of a class are those within its fields and its methods. -/
theorem Member.within_perm (ms : List Member) :
    (ms.flatMap within).Perm (exprsWithin ((ms.filterMap field?).filterMap (·.initial)) ++
      (ms.filterMap method?).flatMap (·.body.within)) := by
  have hfields := flatMap_initials (g := exprsWithin) rfl (by simp [exprsWithin])
    (ms.filterMap field?)
  have hms := flatMap_perm (g := within) ms
  simp only [within, hfields] at hms
  exact hms

theorem readClass_finds (c : Cursor) (start : Nat) (isPublic : Bool) (seen : List Spot) :
    (readClass c start isPublic).Finds file seen fun found d => Used seen found d.within := by
  refine .behind (expect_advances _) fun _ c' _ => ?_
  refine .behind (expectName_advances _) fun name c' _ => ?_
  refine .behind (expect_advances _) fun _ c' _ => ?_
  refine (readMembers_finds c' seen).andThen fun ms c' _ _ hms => .done ?_
  exact hms.perm (Member.within_perm ms)

/-- The expressions within a declaration. -/
def Item.within : Item → List Expr
  | directive _ => []
  | function f => f.body.within
  | classDecl c => c.within

theorem Declarations.exprs_add_perm (d : Declarations) (item : Item) :
    (d.exprs ++ item.within).Perm (d.add item).exprs := by
  cases item with
  | directive u =>
    rw [Item.within, List.append_nil]
    exact .refl _
  | function f => simp [Item.within, exprs, add]
  | classDecl c =>
    have h := exprs_append_perm d ⟨[], [], [c]⟩ d.usings
    simpa [Item.within, exprs, add] using h

theorem readItem_finds (c : Cursor) (seen : List Spot) :
    (readItem c).Finds file seen fun found item => Used seen found item.within := by
  unfold readItem
  split
  · exact .behind (readUsing_advances c) fun _ _ _ => .done (.nil seen)
  · refine .behindOpt (readVisibility_advances c) fun visibility c' _ => ?_
    split
    · exact .map (readFunction_finds c' _ _ _ seen)
    · exact .map (readClass_finds c' _ _ seen)
    · exact .failHere

/-- The names in declarations are found, behind those in the declarations that were there before. -/
theorem readItems_finds (c : Cursor) {d : Declarations} {seen found : List Spot}
    (hd : Used seen found d.exprs) :
    (readItems c d).Finds file found fun found d => Used seen found d.exprs := by
  rw [readItems]
  split
  · exact .done hd
  · refine Finds.weaken ((readItem_finds c found).andThen fun item c' _ _ h => ?_)
    exact readItems_finds c' ((hd.append h).perm (d.exprs_add_perm item))
termination_by c.weight
decreasing_by all_goals omega

/-- **The names in a source text are written in it**, each in a place of its own. -/
theorem spots_of_parseSource {file text : String} {n : Nat} {d : Declarations}
    (h : (parseSource file text n).1 = .ok d) :
    ∃ s, tokenize file text.toList = .ok s ∧
      (spots d.exprs).Subperm (identifiersIn file s.tokens) := by
  unfold parseSource at h
  split at h
  · cases h
  · next s hs =>
    refine ⟨s, hs, ?_⟩
    obtain ⟨-, ts, hts, hread⟩ :=
      readItems_finds (.ofStream s n) (d := {}) (.nil []) (file_of_tokenize hs)
    obtain ⟨found, hfound, hd⟩ := hread d h
    have htokens : s.tokens = ts ++ _ := hts
    rw [htokens, identifiersIn_append]
    exact hd.trans (hfound.trans (List.sublist_append_left _ _).subperm)

theorem exists_placed_of_parseSource {file text : String} {n : Nat} {d : Declarations}
    (h : (parseSource file text n).1 = .ok d) :
    ∃ xs, (spots d.exprs).Subperm xs ∧ Placed file text.toList 0 (byteLength text.toList) xs := by
  obtain ⟨s, hs, hsub⟩ := spots_of_parseSource h
  have hzero : (s.shift (byteLength [])).tokens = s.tokens := List.map_id s.tokens
  have htext : text.toList = [] ++ (text.toList ++ []) := (List.append_nil _).symm
  have hp := placed_of_tokenize hs htext
  rw [hzero, byteLength_nil, Nat.zero_add] at hp
  exact ⟨_, hsub, hp⟩

end MgLang
