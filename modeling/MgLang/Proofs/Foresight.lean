import MgLang.Proofs.Moving
import MgLang.Proofs.Prompt
import MgLang.Proofs.Staying
/-!
# Errors are reported at the first token that does not fit

Every reader of the grammar looks at one token at a time and no further (`Prompt`), and every reader
that comes after another can begin anywhere (`Opens`), with a token or a few that are the shortest
thing it reads. There is one lemma for each reader, up to `readItems_prompt`, and each follows the
definition of its reader: readers in a row, marks that may be left out, choices by the kind of the
token at the cursor. A row that ends with a mark is ended by that mark (`readTys_closing` and its
like).

Most readers can be followed by anything. After a type comes no token that would go on with it
(`TokenKind.AfterTy`), after an expression no operator (`TokenKind.AfterExpr`), and after a statement
no `else`.

`readItems_rejects` is what this says about a whole text. A hole of an interpolated string is read
as a text of its own, with errors at places inside its token, so there must be none.
-/

namespace MgLang

variable {W u : Nat} {K : TokenKind → Prop}

/-! ### Types -/

/-- A token of that kind can come after a type and is no part of it. -/
def TokenKind.AfterTy (k : TokenKind) : Prop := k ≠ .less ∧ k ≠ .openBracket ∧ k ≠ .arrow

instance (k : TokenKind) : Decidable k.AfterTy :=
  inferInstanceAs (Decidable (k ≠ .less ∧ k ≠ .openBracket ∧ k ≠ .arrow))

theorem readPrimitiveTy_prompt {S : Ty → TokenKind → Prop} (c : Cursor) :
    Prompt readPrimitiveTy S c := by
  cases h : primitiveTy? c.kind with
  | some ty =>
    refine .of_step (a := ty) (by rintro he; simp [he, primitiveTy?] at h) fun c' hc' => ?_
    rw [← Cursor.kind_eq_of_current hc'] at h
    unfold readPrimitiveTy
    split
    · next h' =>
      cases h.symm.trans h'
      exact ⟨rfl, rfl⟩
    · next h' => cases h.symm.trans h'
  | none =>
    refine .of_fail (d := c.unexpected) rfl fun c' hc' => ?_
    rw [← Cursor.kind_eq_of_current hc'] at h
    unfold readPrimitiveTy
    split
    · next h' => cases h.symm.trans h'
    · exact congrArg Except.error (atToken_unexpected.congr c' c hc')

theorem readTySuffixes_yields {c : Cursor} (h : c.kind ≠ .openBracket) (power : Power) (ty : Ty) :
    (readTySuffixes c power ty).Yields ty c := by
  rw [readTySuffixes, if_neg fun hc => h hc.1]
  exact ⟨rfl, rfl⟩

theorem readTySuffixes_opens {power : Power} {ty : Ty} (hK : ∀ k : TokenKind, k.AfterTy → K k) :
    Opens (readTySuffixes · power ty) (fun _ k => k.AfterTy) K :=
  .optional (p := (· = .openBracket)) (fun _ h => readTySuffixes_yields h power ty)
    (fun _ h => h.2.1) hK

theorem readTy_opens (power : Power) (hK : K .intType) :
    Opens (readTy · power) (fun _ k => k.AfterTy) K := by
  refine fun c => ⟨[.sample .intType], .int, { c with lastStop := 0 }, fun rest stop h => ?_, ?_⟩
  · show Step.Yields (readTy _ power) _ _
    rw [readTy]
    refine Step.andThen_yields (a := .int) ?_ fun _ => readTySuffixes_yields h.2.1 power .int
    rw [readTyHead]
    exact ⟨rfl, rfl⟩
  · exact fun _ _ _ => hK

theorem readTys_closing (c : Cursor) (h : c.kind = .closeParen) :
    Step.Same (readTys c) ((c.expect .closeParen).map fun _ => []) := by
  rw [readTys, if_pos h]
  exact ⟨rfl, rfl⟩

theorem readTys_opens (hK : K .closeParen) : Opens readTys (fun _ _ => True) K :=
  .closing readTys_closing hK

mutual

theorem readTy_prompt (c : Cursor) (power : Power) :
    Prompt (readTy · power) (fun _ k => k.AfterTy) c := by
  refine .of_eq (fun c' _ => readTy.eq_1 c' power) ?_
  refine (readTyHead_prompt c).andThen fun ty => .of_after ?_ (fun _ _ h => h) fun c' h => ?_
  · exact readTySuffixes_opens fun _ h => h
  · exact readTySuffixes_prompt c' power ty
termination_by 4 * c.weight + 3
decreasing_by all_goals omega

theorem readTyHead_prompt (c : Cursor) : Prompt readTyHead (fun _ k => k.AfterTy) c := by
  refine .of_eq (fun c' h => by rw [readTyHead, Cursor.kind_eq_of_current h]) ?_
  generalize c.kind = kind
  cases kind
  case intType | floatType | stringType | boolType | voidType => exact readPrimitiveTy_prompt c
  case identifier => exact readNamedTy_prompt c
  case kwFn => exact readFnTy_prompt c
  all_goals exact .fail (atToken_expected _)
termination_by 4 * c.weight + 2
decreasing_by all_goals omega

theorem readNamedTy_prompt (c : Cursor) : Prompt readNamedTy (fun _ k => k.AfterTy) c := by
  refine .of_eq (fun c' _ => readNamedTy.eq_1 c') ((Prompt.expect).andThen fun name => ?_)
  cases wrapper? name.value with
  | none => exact .done fun _ _ _ => trivial
  | some wrap =>
    refine .optional (p := (· = .less)) (a := .named name.value)
      (fun c' h => by rw [h]; exact Step.weaken_same _) (fun c' h => ?_) (fun c' hc' _ => ?_)
      (fun _ h => h.1) fun _ _ => trivial
    · split
      · contradiction
      · exact ⟨rfl, rfl⟩
    · refine (Prompt.expect).andThen fun _ => ?_
      refine .andThen (.of_moves (readTy_opens _ trivial) fun c' h => readTy_prompt c' _) ?_
      exact fun inner => (Onward.expect (by decide)).map fun _ _ _ => trivial
termination_by 4 * c.weight + 1
decreasing_by all_goals omega

theorem readFnTy_prompt (c : Cursor) : Prompt readFnTy (fun _ k => k.AfterTy) c := by
  refine .of_eq (fun c' _ => readFnTy.eq_1 c') ?_
  refine (Prompt.expect).andThen fun _ => .andThen (.expect trivial) fun _ => ?_
  refine .andThen (.of_moves (readTys_opens trivial) fun c' h => readTys_prompt c') fun params => ?_
  refine .andThen .accept (.ite ?_ ?_)
  · refine .map (.weaken (.of_moves (readTy_opens _ nofun) ?_)) fun _ _ h => h
    exact fun c' h => readTy_prompt c' _
  · exact .done fun _ _ h _ => ⟨h.2.2, trivial⟩
termination_by 4 * c.weight + 1
decreasing_by all_goals omega

theorem readTys_prompt (c : Cursor) : Prompt readTys (fun _ _ => True) c := by
  refine .closing readTys_closing fun hc => ?_
  refine .of_eq (fun c' h => by rw [readTys, if_neg (Cursor.kind_eq_of_current h ▸ hc)]) ?_
  refine (readTy_prompt c .default).andThen fun ty => .andThen .accept (.ite ?_ ?_)
  · exact .map (.of_moves (readTys_opens nofun) fun c' h => readTys_prompt c') fun _ _ _ => trivial
  · exact (Onward.expect fun _ => by decide).map fun _ _ _ => trivial
termination_by 4 * c.weight + 4
decreasing_by all_goals omega

theorem readTySuffixes_prompt (c : Cursor) (power : Power) (ty : Ty) :
    Prompt (readTySuffixes · power ty) (fun _ k => k.AfterTy) c := by
  refine .optional (p := fun k => k = .openBracket ∧ power < .call) (a := ty)
    (fun c' h => by rw [readTySuffixes, if_pos h]; exact Step.weaken_same _) (fun c' h => ?_)
    (fun _ => ?_) fun _ h hc => h.2.1 hc.1
  · rw [readTySuffixes, if_neg h]
    exact ⟨rfl, rfl⟩
  · refine (Prompt.expect).andThen fun _ => .andThen (.expect trivial) fun _ => ?_
    refine .of_after (readTySuffixes_opens fun _ _ => trivial) (fun _ _ _ => trivial) ?_
    exact fun c' h => readTySuffixes_prompt c' power _
termination_by 4 * c.weight
decreasing_by all_goals omega

end

theorem readTy_onward (power : Power) (hK : K .intType) :
    Onward W u (readTy · power) (fun _ k => k.AfterTy) K :=
  .of_moves (readTy_opens power hK) fun c _ => readTy_prompt c power

theorem readReturnTy_onward (hK : ∀ k : TokenKind, k.AfterTy → K k) :
    Onward W u readReturnTy (fun _ k => k.AfterTy) K := by
  refine .andThen .accept (.ite ?_ ?_)
  · exact .weaken (readTy_onward _ nofun)
  · exact .done fun _ _ h _ => ⟨h.2.2, hK _ h⟩

/-! ### Parameters and patterns -/

theorem readParamList_closing (c : Cursor) (h : c.kind = .closeParen) :
    Step.Same (readParamList c) ((c.expect .closeParen).map fun _ => []) := by
  rw [readParamList, if_pos h]
  exact ⟨rfl, rfl⟩

theorem readParamList_opens (hK : K .closeParen) : Opens readParamList (fun _ _ => True) K :=
  .closing readParamList_closing hK

theorem readParamList_prompt (c : Cursor) : Prompt readParamList (fun _ _ => True) c := by
  refine .closing readParamList_closing fun hc => ?_
  refine .of_eq (fun c' h => by rw [readParamList, if_neg (Cursor.kind_eq_of_current h ▸ hc)]) ?_
  refine .andThen (.expectOr (atToken_expected _)) fun name => ?_
  refine .andThen (.expect trivial) fun _ => .andThen (readTy_onward _ trivial) fun ty => ?_
  refine .andThenFrom .accept fun c => .ite ?_ ?_
  · refine .map (.of_moves (readParamList_opens nofun) fun c' h => ?_) fun _ _ _ => trivial
    exact readParamList_prompt c'
  · exact (Onward.expect fun _ => by decide).map fun _ _ _ => trivial
termination_by c.weight
decreasing_by all_goals omega

theorem readParams_onward (hK : K .openParen) : Onward W u readParams (fun _ _ => True) K :=
  .andThen (.expect hK) fun _ =>
    .of_moves (readParamList_opens trivial) fun c _ => readParamList_prompt c

theorem readArmPattern_prompt (c : Cursor) : Prompt readArmPattern (fun _ _ => True) c := by
  have hvalue {c' : Cursor} (h : c'.current = c.current) : c'.current.value = c.current.value :=
    congrArg Token.value h
  refine .of_eq (fun c' h => by rw [readArmPattern, Cursor.kind_eq_of_current h, hvalue h]) ?_
  generalize c.kind = kind
  cases kind
  case kwSome =>
    refine .andThen .expect fun _ => .andThen (.expect trivial) fun _ => ?_
    refine .andThen (.expect trivial) fun binding => ?_
    exact (Onward.expect trivial).map fun _ _ _ => trivial
  case kwNone => exact (Prompt.expect).map fun _ _ _ => trivial
  all_goals
    refine .ite (fun _ => ?_) fun _ => ?_
    · exact (Prompt.expectOr (atToken_expected _)).map fun _ _ _ => trivial
    · exact .fail (atToken_expected _)

/-! ### Expressions and statements -/

/-- A token of that kind can come after an expression and is no part of it. -/
def TokenKind.AfterExpr (k : TokenKind) : Prop := k.continuation? = none

instance (k : TokenKind) : Decidable k.AfterExpr :=
  inferInstanceAs (Decidable (k.continuation? = none))

theorem readLiteral_prompt {S : Expr → TokenKind → Prop} (c : Cursor) : Prompt readLiteral S c := by
  cases h : c.current.literal with
  | error d =>
    refine .of_fail (Token.literal_error h) fun c' hc' => ?_
    rw [← hc'] at h
    unfold readLiteral
    split
    · next h' =>
      cases h.symm.trans h'
      rfl
    · next h' => cases h.symm.trans h'
  | ok f =>
    have hne : c.kind ≠ .eof := by
      intro he
      simp [Token.literal, show c.current.kind = .eof from he] at h
    have hread (c' : Cursor) (hc' : c'.current = c.current) : readLiteral c' =
        (c'.expect c.kind).andThen fun token c' _ => c'.build token.span f := by
      rw [← hc'] at h
      rw [Cursor.expect_eq_take (Cursor.kind_eq_of_current hc') hne]
      unfold readLiteral
      split
      · next h' => cases h.symm.trans h'
      · next h' =>
        cases h.symm.trans h'
        rfl
    exact .of_eq hread ((Prompt.expect hne).andThen fun _ => .build fun _ _ _ => trivial)

theorem readContinuations_yields {c : Cursor} {power : Power} {left : Expr}
    (h : ∀ k, c.kind.continuation? = some k → k.power ≤ power) :
    (readContinuations c power left).Yields left c := by
  rw [readContinuations]
  split
  · exact ⟨rfl, rfl⟩
  · next k hk =>
    rw [if_pos (h k hk)]
    exact ⟨rfl, rfl⟩

theorem readContinuations_yields_of_afterExpr {c : Cursor} (h : c.kind.AfterExpr) (power : Power)
    (left : Expr) : (readContinuations c power left).Yields left c :=
  readContinuations_yields fun k hk => by cases h.symm.trans hk

theorem readContinuations_opens {power : Power} {left : Expr}
    (hK : ∀ k : TokenKind, k.AfterExpr → K k) :
    Opens (readContinuations · power left) (fun _ k => k.AfterExpr) K := by
  refine fun c => ⟨[], left, c, fun rest stop h => ?_, fun _ _ h => hK _ h⟩
  exact readContinuations_yields_of_afterExpr h power left

theorem readExpr_opens (power : Power) (hK : K .kwTrue) :
    Opens (readExpr · power) (fun _ k => k.AfterExpr) K := by
  refine fun c => ⟨[.sample .kwTrue], .bool ⟨c.nextId, .null⟩ true,
    { c with lastStop := 0, nextId := c.nextId + 1 }, fun rest stop h => ?_, fun _ _ _ => hK⟩
  show Step.Yields (readExpr _ power) _ _
  rw [readExpr]
  refine Step.andThen_yields ?_ fun _ => readContinuations_yields_of_afterExpr h power _
  rw [readOperand]
  exact ⟨rfl, rfl⟩

/-- The marks that close a list of expressions. -/
def TokenKind.Closes (k : TokenKind) : Prop := k = .closeParen ∨ k = .closeBracket

theorem TokenKind.Closes.ne_eof {k : TokenKind} (h : k.Closes) : k ≠ .eof := by
  rcases h with rfl | rfl <;> decide

theorem TokenKind.Closes.ne_comma {k : TokenKind} (h : k.Closes) : k ≠ .comma := by
  rcases h with rfl | rfl <;> decide

theorem TokenKind.Closes.afterExpr {k : TokenKind} (h : k.Closes) : k.AfterExpr := by
  rcases h with rfl | rfl <;> decide

theorem readOperand_fails {c : Cursor} (h : c.kind.startsExpr = false) :
    readOperand c = .fail c.unexpected c := by
  rw [readOperand]
  split <;> first | rfl | (next h' => rw [h'] at h; cases h)

theorem readArgs_closing {close : TokenKind} (hclose : close.Closes) (c : Cursor)
    (h : c.kind = close) :
    Step.Same (readArgs c close) ((c.expect close).map fun _ => []) := by
  rw [readArgs, if_pos h, Cursor.expectKind, if_pos h, Cursor.expect_eq_take h hclose.ne_eof]
  exact ⟨rfl, rfl⟩

theorem readArgs_opens {close : TokenKind} (hclose : close.Closes) (hK : K close) :
    Opens (readArgs · close) (fun _ _ => True) K :=
  .closing (readArgs_closing hclose) hK hclose.ne_eof

theorem readStmts_closing (c : Cursor) (h : c.kind = .closeCurly) :
    Step.Same (readStmts c) ((c.expect .closeCurly).map fun _ => []) := by
  rw [readStmts, h]
  exact ⟨rfl, rfl⟩

theorem readStmts_opens (hK : K .closeCurly) : Opens readStmts (fun _ _ => True) K :=
  .closing readStmts_closing hK

theorem readBlock_opens (hK : K .openCurly) : Opens readBlock (fun _ _ => True) K := by
  refine .of_branch (p := fun _ => True) (fun c _ => .of_eq (readBlock.eq_1 c)) ?_
  refine .andThen (Onward.expect (W := 0) (u := 0) ⟨trivial, hK⟩).opens fun token => ?_
  refine .andThen (readStmts_opens trivial) fun stmts => (Onward.done (W := 0) (u := 0) ?_).opens
  exact fun _ _ _ => trivial

theorem readArms_closing (c : Cursor) (h : c.kind = .closeCurly) :
    Step.Same (readArms c) ((c.expect .closeCurly).map fun _ => []) := by
  rw [readArms, if_pos h]
  exact ⟨rfl, rfl⟩

theorem readArms_opens (hK : K .closeCurly) : Opens readArms (fun _ _ => True) K :=
  .closing readArms_closing hK

section

variable {c : Cursor} {rest : List Token} {stop : Nat}

/-- The holes of an interpolated string are read without a look at the tokens around it. -/
theorem readParts_faces (c : Cursor) (token : Token) (pieces : List Piece) (rest : List Token)
    (stop : Nat) :
    Step.Faces rest stop (readParts c token pieces) (readParts (c.facing rest stop) token pieces) := by
  induction pieces generalizing c with
  | nil =>
    rw [readParts, readParts]
    exact ⟨rfl, rfl⟩
  | cons p ps ih =>
    cases p with
    | text raw =>
      rw [readParts, readParts]
      exact (ih c).map _
    | hole offset source =>
      have hlexed : tokenize (c.facing rest stop).file source = tokenize c.file source := rfl
      rw [readParts, readParts]
      split
      · next d hd =>
        split
        · next e he =>
          cases hd.symm.trans (hlexed.symm.trans he)
          exact ⟨rfl, rfl⟩
        · next s hs => cases hd.symm.trans (hlexed.symm.trans hs)
      · next s hs =>
        split
        · next e he => cases hs.symm.trans (hlexed.symm.trans he)
        · next s' hs' =>
          cases hs.symm.trans (hlexed.symm.trans hs')
          exact Step.Faces.andThen ⟨rfl, rfl⟩ fun value n _ _ => (ih n).map _
    | unclosed =>
      rw [readParts, readParts]
      exact ⟨rfl, rfl⟩

/-- The holes are texts of their own in the same file. -/
theorem file_next_readParts (c : Cursor) (token : Token) (pieces : List Piece) :
    (readParts c token pieces).next.file = c.file := by
  induction pieces generalizing c with
  | nil =>
    rw [readParts]
    rfl
  | cons p ps ih =>
    cases p with
    | text raw =>
      rw [readParts, Step.next_map]
      exact ih c
    | hole offset source =>
      rw [readParts]
      split
      · rfl
      · next s hs =>
        refine Step.file_next_andThen rfl fun value n _ hn => ?_
        rw [Step.next_map]
        exact (ih n).trans hn
    | unclosed =>
      rw [readParts]
      rfl

theorem readOperand_interpolated (h : c.kind = .interpolated) :
    readOperand c = readInterpolated c h := by
  rw [readOperand]
  split <;> rename_i h' <;> first | rfl | cases h.symm.trans h' | exact absurd h (by assumption)

theorem readInterpolated_faces (h : c.kind = .interpolated)
    (h' : (c.facing (c.current :: rest) stop).kind = .interpolated) :
    Step.Faces rest stop (readInterpolated c h)
      (readInterpolated (c.facing (c.current :: rest) stop) h') := by
  have hadvance : (c.facing (c.current :: rest) stop).advance = c.advance.facing rest stop := by
    unfold Cursor.kind Cursor.current at h
    unfold Cursor.advance Cursor.current
    cases hr : c.rest with
    | nil =>
      rw [hr] at h
      cases h
    | cons t r => rfl
  rw [readInterpolated, readInterpolated]
  have htake : Step.Faces rest stop (c.takeInterpolated h)
    ((c.facing (c.current :: rest) stop).takeInterpolated h') := ⟨rfl, hadvance⟩
  refine Step.Faces.moved (htake.andThen fun token n _ _ => ?_)
  exact (readParts_faces n token _ rest stop).andThen fun parts n _ _ => ⟨rfl, rfl⟩

/-- An interpolated string is read as it is wherever it stands. -/
theorem readOperand_prompt_interpolated {S : Expr → TokenKind → Prop} (h : c.kind = .interpolated) :
    Prompt readOperand S c := by
  refine .of_interpolated h ?_ fun rest stop => ?_
  · rw [readOperand_interpolated h, readInterpolated, Step.next_moved]
    refine Step.file_next_andThen c.file_advance fun token n _ hn => ?_
    exact Step.file_next_andThen ((file_next_readParts n token _).trans hn) fun _ _ _ hn => hn
  · have h' : (c.facing (c.current :: rest) stop).kind = .interpolated := h
    rw [readOperand_interpolated h, readOperand_interpolated h']
    exact readInterpolated_faces h h'

end

mutual

theorem readExpr_prompt (c : Cursor) (power : Power) :
    Prompt (readExpr · power) (fun _ k => k.AfterExpr) c := by
  refine .of_eq (fun c' _ => readExpr.eq_1 c' power) ?_
  refine (readOperand_prompt c).andThen fun left => .of_after ?_ (fun _ _ h => h) fun c' h => ?_
  · exact readContinuations_opens fun _ h => h
  · exact readContinuations_prompt c' power left
termination_by 8 * c.weight + 5
decreasing_by all_goals omega

theorem readOperand_prompt (c : Cursor) : Prompt readOperand (fun _ k => k.AfterExpr) c := by
  cases hstart : c.kind.startsExpr with
  | false =>
    refine .of_eq (fun c' h => readOperand_fails ?_) (.fail atToken_unexpected)
    rwa [Cursor.kind_eq_of_current h]
  | true =>
  have hkind (c' : Cursor) (h : c'.current = c.current) : c'.kind = c.kind :=
    Cursor.kind_eq_of_current h
  cases hk : c.kind <;> rw [hk] at hstart hkind <;> try (cases hstart; done)
  case interpolated => exact readOperand_prompt_interpolated hk
  -- The kind of the token decides the branch, and contradicts every other one.
  all_goals refine .of_eq (fun c' h => by
    rewrite [readOperand]
    split <;> rename_i h' <;>
      first
      | cases ((hkind c' h).symm.trans h'); done
      | rfl
      | exact absurd (hkind c' h) (by assumption)) ?_
  case int | float | string | kwTrue | kwFalse | kwNone | kwThis | identifier =>
    exact readLiteral_prompt c
  case kwSome =>
    refine (Prompt.expect).andThen fun token => .andThen (.expect trivial) fun _ => ?_
    refine .andThen (.of_moves (readExpr_opens _ trivial) fun c' h => readExpr_prompt c' _) ?_
    refine fun inner => .andThen (.expect (by decide)) fun _ => ?_
    exact .build fun _ _ _ => trivial
  case dash | not =>
    exact readUnary_prompt c _ _ (by decide)
  case openParen =>
    refine (Prompt.expect).andThen fun _ => ?_
    refine .andThen (.of_moves (readExpr_opens _ trivial) fun c' h => readExpr_prompt c' _) ?_
    exact fun inner => (Onward.expect (by decide)).map fun _ _ _ => trivial
  case openBracket =>
    refine (Prompt.expect).andThen fun token => ?_
    refine .andThen (.of_after (readArgs_opens (.inr rfl) trivial) (fun _ _ _ => trivial) ?_) ?_
    · exact fun c' h => readArgs_prompt c' _ (.inr rfl)
    · exact fun items => .build fun _ _ _ => trivial
  case kwNew =>
    refine (Prompt.expect).andThen fun token => .andThen (.expectName _ trivial) fun name => ?_
    refine .andThen (.expect trivial) fun _ => ?_
    refine .andThen (.of_after (readArgs_opens (.inl rfl) trivial) (fun _ _ _ => trivial) ?_) ?_
    · exact fun c' h => readArgs_prompt c' _ (.inl rfl)
    · exact fun args => .build fun _ _ _ => trivial
  case kwFn =>
    refine (Prompt.expect).andThen fun token => ?_
    refine .andThen (readParams_onward trivial) fun params => ?_
    refine .andThen (readReturnTy_onward fun _ _ => trivial) fun ret => ?_
    refine .andThen (.of_moves (readBlock_opens (by decide)) fun c' h => readBlock_prompt c') ?_
    exact fun body => .build fun _ _ _ => trivial
termination_by 8 * c.weight + 4
decreasing_by all_goals omega

theorem readUnary_prompt (c : Cursor) (kind : TokenKind) (op : UnaryOp) (hkind : kind ≠ .eof) :
    Prompt (readUnary · kind op) (fun _ k => k.AfterExpr) c := by
  refine .of_eq (fun c' _ => readUnary.eq_1 c' kind op) ?_
  refine (Prompt.expect hkind).andThen fun token => ?_
  refine .andThen (.of_moves (readExpr_opens .unary trivial) fun c' h => readExpr_prompt c' _) ?_
  exact fun operand => .build fun _ _ h => h
termination_by 8 * c.weight + 1
decreasing_by all_goals omega

theorem readContinuations_prompt (c : Cursor) (power : Power) (left : Expr) :
    Prompt (readContinuations · power left) (fun _ k => k.AfterExpr) c := by
  by_cases hk : ∃ k, c.kind.continuation? = some k ∧ ¬ k.power ≤ power
  · obtain ⟨k, hk, hpower⟩ := hk
    have hne : c.kind ≠ .eof := by
      intro he
      simp [he, TokenKind.continuation?] at hk
    obtain ⟨X, hX, hprompt⟩ := readContinuation_prompt c k left hne
    have hread (c' : Cursor) (hc' : c'.current = c.current) :
        Step.Same (readContinuations c' power left)
          ((X c').andThen fun left c' _ => readContinuations c' power left) := by
      rw [← Cursor.kind_eq_of_current hc'] at hk
      rw [readContinuations]
      split
      · next h => cases h.symm.trans hk
      · next k' h =>
        cases h.symm.trans hk
        rw [if_neg hpower, hX c' _ hc']
        exact Step.weaken_same _
    refine .branch hread (hprompt.andThen fun left => .of_after ?_ (fun _ _ h => h) fun c' h => ?_)
    · exact readContinuations_opens fun _ h => h
    · exact readContinuations_prompt c' power left
  · have hstop (k : Continuation) (h : c.kind.continuation? = some k) : k.power ≤ power := by
      by_contra hp
      exact hk ⟨k, h, hp⟩
    refine .of_stay (a := left) (n := c) rfl rfl rfl fun rest stop hq => ?_
    rcases hq with hq | hq
    · exact readContinuations_yields fun k h => hstop k (Cursor.kind_eq_of_current hq ▸ h)
    · exact readContinuations_yields_of_afterExpr hq _ _
termination_by 8 * c.weight + 2
decreasing_by all_goals omega

/-- A continuation is read only where a token is left. -/
theorem readContinuation_prompt (c : Cursor) (k : Continuation) (left : Expr)
    (hne : c.kind ≠ .eof) : ∃ X : TokenReader 1 Expr,
      (∀ c' ne, c'.current = c.current → readContinuation c' k left ne = X c') ∧
        Prompt X (fun _ k => k.AfterExpr) c := by
  refine ⟨_, fun c' ne hc' => by
    rw [readContinuation, ← Cursor.expect_eq_take (Cursor.kind_eq_of_current hc') hne], ?_⟩
  refine (Prompt.expect hne).andThen fun _ => ?_
  cases k with
  | assign =>
    refine .weaken (.andThen (.of_moves (readExpr_opens _ trivial) fun c' h => ?_) fun value => ?_)
    · exact readExpr_prompt c' _
    · exact .build fun _ _ h => h
  | binary op =>
    refine .weaken (.andThen (.of_moves (readExpr_opens _ trivial) fun c' h => ?_) fun right => ?_)
    · exact readExpr_prompt c' _
    · exact .build fun _ _ h => h
  | call =>
    refine .andThen (.of_after (readArgs_opens (.inl rfl) trivial) (fun _ _ _ => trivial) ?_) ?_
    · exact fun c' h => readArgs_prompt c' _ (.inl rfl)
    · exact fun args => .build fun _ _ _ => trivial
  | index =>
    refine .weaken (.andThen (.of_moves (readExpr_opens _ trivial) fun c' h => ?_) fun index => ?_)
    · exact readExpr_prompt c' _
    · exact .andThen (.expect (by decide)) fun _ => .build fun _ _ _ => trivial
  | member =>
    exact .weaken (.andThen (.expectName _ trivial) fun name => .build fun _ _ _ => trivial)
termination_by 8 * c.weight + 1
decreasing_by all_goals omega

theorem readArgs_prompt (c : Cursor) (close : TokenKind) (hclose : close.Closes) :
    Prompt (readArgs · close) (fun _ _ => True) c := by
  refine .closing (readArgs_closing hclose) (fun hc => ?_) hclose.ne_eof
  refine .branch (fun c' h => by
    rw [readArgs, if_neg (Cursor.kind_eq_of_current h ▸ hc)]
    exact Step.weaken_same _) ?_
  refine (readExpr_prompt c .comma).andThen fun arg => .andThen .accept (.ite ?_ ?_)
  · refine .map (.of_after (readArgs_opens hclose nofun) (fun _ _ _ => nofun) fun c' h => ?_) ?_
    · exact readArgs_prompt c' close hclose
    · exact fun _ _ _ => trivial
  · refine .map (.expectKind hclose.ne_eof fun _ => ⟨hclose.ne_comma, ?_⟩) fun _ _ _ => trivial
    exact hclose.afterExpr
termination_by 8 * c.weight + 6
decreasing_by all_goals omega

theorem readBlock_prompt (c : Cursor) : Prompt readBlock (fun _ _ => True) c := by
  refine .of_eq (fun c' _ => readBlock.eq_1 c') ?_
  refine (Prompt.expect).andThen fun token => ?_
  refine .andThen (.of_moves (readStmts_opens trivial) fun c' h => readStmts_prompt c') ?_
  exact fun stmts => .done fun _ _ _ => trivial
termination_by 8 * c.weight + 3
decreasing_by all_goals omega

theorem readStmts_prompt (c : Cursor) : Prompt readStmts (fun _ _ => True) c := by
  refine .closing readStmts_closing fun hc => ?_
  have hkind (c' : Cursor) (h : c'.current = c.current) : c'.kind = c.kind :=
    Cursor.kind_eq_of_current h
  by_cases he : c.kind = .eof
  · refine .of_eq (fun c' h => by rw [readStmts, hkind c' h, he]) (.fail (atToken_expected _))
  · refine .of_eq (fun c' h => by
      rewrite [readStmts]
      split
      · next h' => exact absurd ((hkind c' h).symm.trans h') hc
      · next h' => exact absurd ((hkind c' h).symm.trans h') he
      · rfl) ?_
    refine (readStmt_prompt c).andThen fun stmt => .map (.of_moves (readStmts_opens nofun) ?_) ?_
    · exact fun c' h => readStmts_prompt c'
    · exact fun _ _ _ => trivial
termination_by 8 * c.weight + 7
decreasing_by all_goals omega

theorem readStmt_prompt (c : Cursor) : Prompt readStmt (fun _ k => k ≠ .kwElse) c := by
  refine .of_eq (fun c' h => by rw [readStmt, Cursor.kind_eq_of_current h]) ?_
  generalize c.kind = kind
  have hexpr : Prompt (fun c' => (readExpr c' .default).andThen fun value c' _ =>
      (c'.expect .semicolon).map fun _ => Stmt.expr value) (fun _ k => k ≠ .kwElse) c :=
    (readExpr_prompt c .default).andThen fun value =>
      (Onward.expect (by decide)).map fun _ _ _ => trivial
  cases kind
  case kwLet =>
    refine (Prompt.expect).andThen fun token => .andThen .accept fun mutable => ?_
    refine .andThen (.expectName _ fun _ => by decide) fun name => .andThen .accept fun colon => ?_
    refine .andThen (S := fun _ k => k = .assignment)
      (.ite (K := fun b k => b = false → k ≠ .colon ∧ True) ?_ ?_ colon) fun ty => ?_
    · refine .map (.weaken (readTy_onward _ nofun)) ?_
      rintro _ _ rfl
      decide
    · refine .done ?_
      rintro _ _ rfl _
      decide
    refine .andThen (.expectOr (atToken_expected _) rfl) fun _ => ?_
    refine .andThen (.of_moves (readExpr_opens _ trivial) fun c' h => readExpr_prompt c' _) ?_
    exact fun value => .andThen (.expect (by decide)) fun _ => .done fun _ _ _ => trivial
  case kwReturn =>
    refine (Prompt.expect).andThen fun token => ?_
    refine .andThen (S := fun _ k => k = .semicolon) ?_ fun value => ?_
    · refine .optional (p := (· ≠ .semicolon)) (a := none) (fun c' h => by
        rw [if_neg h]
        exact Step.weaken_map_same _ _) (fun c' h => ?_) (fun c' h _ => ?_) ?_ ?_
      · rw [if_pos (not_not.1 h)]
        exact ⟨rfl, rfl⟩
      · refine (readExpr_prompt c' _).map ?_
        rintro _ _ rfl
        decide
      · rintro _ rfl
        decide
      · exact fun _ _ => trivial
    · exact .andThen (.expect rfl) fun _ => .done fun _ _ _ => trivial
  case kwIf => exact readIf_prompt c
  case kwWhile =>
    refine (Prompt.expect).andThen fun token => ?_
    refine .andThen (.of_moves (readExpr_opens _ trivial) fun c' h => readExpr_prompt c' _) ?_
    refine fun condition => .andThen (.of_moves (readBlock_opens (by decide)) fun c' h => ?_) ?_
    · exact readBlock_prompt c'
    · exact fun body => .done fun _ _ _ => trivial
  case kwFor =>
    refine (Prompt.expect).andThen fun token => .andThen .accept fun parenthesised => ?_
    refine .andThen (.expectName _ fun _ => by decide) fun name => ?_
    refine .andThen (.expect trivial) fun _ => ?_
    refine .andThen (.of_moves (readExpr_opens _ trivial) fun c' h => readExpr_prompt c' _) ?_
    refine fun iterable => .andThen (S := fun _ k => k = .openCurly)
      (.ite (K := fun _ k => k.AfterExpr) ?_ ?_ _) fun _ => ?_
    · exact .map (.weaken (.expect (by decide))) fun _ _ _ => trivial
    · refine .done ?_
      rintro _ _ rfl
      decide
    refine .andThen (.of_moves (readBlock_opens rfl) fun c' h => readBlock_prompt c') ?_
    exact fun body => .done fun _ _ _ => trivial
  case kwMatch =>
    refine (Prompt.expect).andThen fun token => ?_
    refine .andThen (.of_moves (readExpr_opens _ trivial) fun c' h => readExpr_prompt c' _) ?_
    refine fun scrutinee => .andThen (.expect (by decide)) fun _ => ?_
    refine .andThen (.of_moves (readArms_opens trivial) fun c' h => readArms_prompt c') ?_
    exact fun arms => .done fun _ _ _ => trivial
  case openCurly => exact (readBlock_prompt c).map fun _ _ _ => trivial
  all_goals exact hexpr
termination_by 8 * c.weight + 6
decreasing_by all_goals omega

theorem readIf_prompt (c : Cursor) : Prompt readIf (fun _ k => k ≠ .kwElse) c := by
  refine .of_eq (fun c' _ => readIf.eq_1 c') ?_
  refine (Prompt.expect).andThen fun token => ?_
  refine .andThen (.of_moves (readExpr_opens _ trivial) fun c' h => readExpr_prompt c' _) ?_
  refine fun condition => .andThen (.of_moves (readBlock_opens (by decide)) fun c' h => ?_) ?_
  · exact readBlock_prompt c'
  refine fun body => .andThen .accept fun otherwise => ?_
  refine .andThen (S := fun _ k => k ≠ .kwElse)
    (.ite (K := fun b k => b = false → k ≠ .kwElse ∧ True)
      (.of_after ?_ (fun _ _ _ => nofun) fun c' h => ?_) ?_ otherwise) ?_
  · refine .of_branch (p := (· ≠ .kwIf)) (fun c' h => by
      rw [if_neg h]
      exact Step.weaken_map_same _ _) ?_
    exact (readBlock_opens ⟨by decide, nofun⟩).map fun _ _ _ => trivial
  · by_cases hif : c'.kind = .kwIf
    · refine .branch (fun c'' h => by
        rw [if_pos ((Cursor.kind_eq_of_current h).trans hif)]
        exact Step.weaken_map_same _ _) ((readIf_prompt c').map fun _ _ h => h)
    · refine .branch (fun c'' h => by
        rw [if_neg (Cursor.kind_eq_of_current h ▸ hif)]
        exact Step.weaken_map_same _ _) ((readBlock_prompt c').map fun _ _ _ => trivial)
  · exact .done fun _ _ h _ => ⟨h, trivial⟩
  · exact fun otherwise => .done fun _ _ h => h
termination_by 8 * c.weight + 5
decreasing_by all_goals omega

theorem readArms_prompt (c : Cursor) : Prompt readArms (fun _ _ => True) c := by
  refine .closing readArms_closing fun hc => ?_
  refine .of_eq (fun c' h => by rw [readArms, if_neg (Cursor.kind_eq_of_current h ▸ hc)]) ?_
  refine (readArm_prompt c).andThen fun arm => .andThen .accept fun comma => ?_
  refine .map (.of_moves (readArms_opens fun _ => by decide) fun c' h => ?_) fun _ _ _ => trivial
  exact readArms_prompt c'
termination_by 8 * c.weight + 7
decreasing_by all_goals omega

theorem readArm_prompt (c : Cursor) :
    Prompt readArm (fun _ k => k.AfterExpr ∧ k ≠ .semicolon) c := by
  refine .of_eq (fun c' h => by rw [readArm, Cursor.start_eq_of_current h]) ?_
  refine (readArmPattern_prompt c).andThen fun pattern => .andThen (.expect trivial) fun _ => ?_
  refine .andThen (S := fun _ k => k.AfterExpr ∧ k ≠ .semicolon) (.of_moves ?_ fun c' h => ?_) ?_
  · refine .of_branch (p := (· = .openCurly)) (fun c' h => by
      rw [if_pos h]
      exact ⟨rfl, rfl⟩) ?_
    exact (readBlock_opens ⟨rfl, trivial⟩).mono fun _ _ _ => trivial
  · by_cases hbrace : c'.kind = .openCurly
    · refine .of_eq (fun c'' h => by
        rw [if_pos ((Cursor.kind_eq_of_current h).trans hbrace)]) ?_
      exact (readBlock_prompt c').mono fun _ _ _ => trivial
    · refine .of_eq (fun c'' h => by rw [if_neg (Cursor.kind_eq_of_current h ▸ hbrace)]) ?_
      refine (readExpr_prompt c' _).andThen fun value => .map .accept ?_
      exact fun _ _ h _ => ⟨h.2, h.1⟩
  · exact fun body => .done fun _ _ h => h
termination_by 8 * c.weight + 6
decreasing_by all_goals omega

end

/-! ### Source texts -/

theorem readExpr_onward (power : Power) (hK : K .kwTrue) :
    Onward W u (readExpr · power) (fun _ k => k.AfterExpr) K :=
  .of_moves (readExpr_opens power hK) fun c _ => readExpr_prompt c power

theorem readBlock_onward (hK : K .openCurly) : Onward W u readBlock (fun _ _ => True) K :=
  .of_moves (readBlock_opens hK) fun c _ => readBlock_prompt c

theorem readSegments_yields {c : Cursor} (h : ¬ c.kind = .dot) (path : String) :
    (readSegments c path).Yields path c := by
  rw [readSegments, if_neg h]
  exact ⟨rfl, rfl⟩

theorem readSegments_opens {path : String} (hK : ∀ k, k ≠ .dot → K k) :
    Opens (readSegments · path) (fun _ k => k ≠ .dot) K :=
  .optional (p := (· = .dot)) (fun _ h => readSegments_yields h path) (fun _ h => h) hK

theorem readSegments_prompt (c : Cursor) (path : String) :
    Prompt (readSegments · path) (fun _ k => k ≠ .dot) c := by
  refine .optional (p := (· = .dot)) (fun c' h => by
    rw [readSegments, if_pos h]
    exact Step.weaken_same _) (fun c' h => readSegments_yields h path) (fun _ => ?_) fun _ h => h
  refine (Prompt.expect).andThen fun _ => .andThen (.expectName _ trivial) fun segment => ?_
  refine .of_after (readSegments_opens fun _ _ => trivial) (fun _ _ _ => trivial) fun c' h => ?_
  exact readSegments_prompt c' _
termination_by c.weight
decreasing_by omega

theorem readUsing_prompt (c : Cursor) : Prompt readUsing (fun _ _ => True) c := by
  refine .andThen .expect fun token => .andThen (.expectName _ trivial) fun first => ?_
  refine .andThen (.of_after (readSegments_opens fun _ _ => trivial) (fun _ _ _ => trivial) ?_) ?_
  · exact fun c' _ => readSegments_prompt c' _
  · exact fun path => .andThen (.expect (by decide)) fun _ => .done fun _ _ _ => trivial

theorem readFunction_onward (start : Nat) (isPublic isStatic : Bool) (hK : K .kwFn) :
    Onward W u (readFunction · start isPublic isStatic) (fun _ _ => True) K := by
  refine .andThen (.expect hK) fun _ => .andThen (.expectName _ trivial) fun name => ?_
  refine .andThen (readParams_onward trivial) fun params => ?_
  refine .andThen (readReturnTy_onward fun _ _ => trivial) fun ret => ?_
  exact .andThen (readBlock_onward (by decide)) fun body => .done fun _ _ _ => trivial

theorem readField_onward (start : Nat) (isPublic isStatic : Bool) (hK : K .identifier) :
    Onward W u (readField · start isPublic isStatic) (fun _ _ => True) K := by
  refine .andThen (.expect hK) fun name => .andThen (.expect trivial) fun _ => ?_
  refine .andThen (readTy_onward _ trivial) fun ty => .andThen .accept fun assigned => ?_
  refine .andThen (S := fun _ k => k = .semicolon)
    (.ite (K := fun b k => b = false → k ≠ .assignment ∧ k.AfterTy) ?_ ?_ assigned) fun _ => ?_
  · refine .map (.weaken (readExpr_onward _ nofun)) ?_
    rintro _ _ rfl
    decide
  · refine .done ?_
    rintro _ _ rfl _
    decide
  · exact .andThen (.expect rfl) fun _ => .done fun _ _ _ => trivial

/-- After no mark of visibility no such mark comes. -/
theorem readVisibility_prompt (c : Cursor) :
    Prompt readVisibility (fun v k => v = none → k ≠ .kwPub ∧ k ≠ .kwPriv) c := by
  have hkind (c' : Cursor) (h : c'.current = c.current) : c'.kind = c.kind :=
    Cursor.kind_eq_of_current h
  by_cases hpub : c.kind = .kwPub
  · refine .branch (fun c' h => by
      rw [readVisibility, hkind c' h, hpub]
      exact Step.weaken_same _) ((Prompt.expect).map fun _ _ _ => trivial)
  by_cases hpriv : c.kind = .kwPriv
  · refine .branch (fun c' h => by
      rw [readVisibility, hkind c' h, hpriv]
      exact Step.weaken_same _) ((Prompt.expect).map fun _ _ _ => trivial)
  have hnone {c' : Cursor} (h : c'.kind ≠ .kwPub) (h' : c'.kind ≠ .kwPriv) :
      (readVisibility c').Yields none c' := by
    unfold readVisibility
    split
    · contradiction
    · contradiction
    · exact ⟨rfl, rfl⟩
  refine .of_stay (a := none) (n := c) rfl rfl rfl fun rest stop hq => ?_
  rcases hq with hq | hq
  · exact hnone (Cursor.kind_eq_of_current hq ▸ hpub) (Cursor.kind_eq_of_current hq ▸ hpriv)
  · exact hnone (hq rfl).1 (hq rfl).2

theorem readMembers_closing (c : Cursor) (h : c.kind = .closeCurly) :
    Step.Same (readMembers c) ((c.expect .closeCurly).map fun _ => []) := by
  rw [readMembers, if_pos h]
  exact ⟨rfl, rfl⟩

theorem readMembers_opens (hK : K .closeCurly) : Opens readMembers (fun _ _ => True) K :=
  .closing readMembers_closing hK

theorem readMembers_prompt (c : Cursor) : Prompt readMembers (fun _ _ => True) c := by
  refine .closing readMembers_closing fun hc => ?_
  refine .of_eq (fun c' h => by
    rw [readMembers, if_neg (Cursor.kind_eq_of_current h ▸ hc), Cursor.start_eq_of_current h]) ?_
  refine (readVisibility_prompt c).optThen fun visibility => .optThen .accept fun isStatic => ?_
  refine .andThen (S := fun _ _ => True) (.of_moves ?_ fun c' h => ?_) fun member => ?_
  · refine .of_branch (p := (· = .identifier)) (fun c' h => by
      rw [h]
      exact ⟨rfl, rfl⟩) ?_
    refine .map (readField_onward (W := 0) (u := 0) _ _ _ ?_).opens fun _ _ _ => trivial
    exact ⟨rfl, fun _ => ⟨by decide, fun _ => by decide⟩⟩
  · refine .of_eq (fun c'' h => by rw [Cursor.kind_eq_of_current h]) ?_
    generalize c'.kind = kind
    cases kind
    case kwFn => exact (readFunction_onward _ _ _ trivial).prompt_at.map fun _ _ _ => trivial
    case identifier => exact (readField_onward _ _ _ trivial).prompt_at.map fun _ _ _ => trivial
    all_goals exact .fail (atToken_expected _)
  · refine .map (.of_moves (readMembers_opens trivial) fun c' h => ?_) fun _ _ _ => trivial
    exact readMembers_prompt c'
termination_by c.weight
decreasing_by omega

theorem readClass_prompt (c : Cursor) (start : Nat) (isPublic : Bool) :
    Prompt (readClass · start isPublic) (fun _ _ => True) c := by
  refine .andThen .expect fun _ => .andThen (.expectName _ trivial) fun name => ?_
  refine .andThen (.expect trivial) fun _ => ?_
  refine .andThen (.of_moves (readMembers_opens trivial) fun c' h => readMembers_prompt c') ?_
  exact fun members => .done fun _ _ _ => trivial

theorem readItem_prompt (c : Cursor) : Prompt readItem (fun _ _ => True) c := by
  by_cases husing : c.kind = .kwUsing
  · refine .of_eq (fun c' h => by
      rw [readItem, if_pos ((Cursor.kind_eq_of_current h).trans husing)]) ?_
    exact (readUsing_prompt c).map fun _ _ _ => trivial
  refine .of_eq (fun c' h => by
    rw [readItem, if_neg (Cursor.kind_eq_of_current h ▸ husing), Cursor.start_eq_of_current h]) ?_
  refine (readVisibility_prompt c).optThen fun visibility => .of_moves ?_ fun c' h => ?_
  · refine .of_branch (p := (· = .kwFn)) (fun c' h => by
      rw [h]
      exact ⟨rfl, rfl⟩) ?_
    refine .map (readFunction_onward (W := 0) (u := 0) _ _ _ ?_).opens fun _ _ _ => trivial
    exact ⟨rfl, fun _ => by decide⟩
  · refine .of_eq (fun c'' h => by rw [Cursor.kind_eq_of_current h]) ?_
    generalize c'.kind = kind
    cases kind
    case kwFn => exact (readFunction_onward _ _ _ trivial).prompt_at.map fun _ _ _ => trivial
    case kwClass => exact (readClass_prompt c' _ _).map fun _ _ _ => trivial
    all_goals exact .fail (atToken_expected _)

theorem readItems_yields {c : Cursor} (h : c.kind = .eof) (d : Declarations) :
    (readItems c d).Yields d c := by
  rw [readItems, if_pos h]
  exact ⟨rfl, rfl⟩

theorem readItems_prompt (c : Cursor) (d : Declarations) :
    Prompt (readItems · d) (fun _ k => k = .eof) c := by
  refine .optional (p := (· ≠ .eof)) (fun c' h => by
    rw [readItems, if_neg h]
    exact Step.weaken_same _) (fun c' h => readItems_yields (not_not.1 h) d) (fun _ => ?_)
    fun _ h => not_not.2 h
  refine (readItem_prompt c).andThen fun item => .of_after ?_ (fun _ _ _ => trivial) fun c' h => ?_
  · exact .optional (p := (· ≠ .eof)) (fun _ h => readItems_yields (not_not.1 h) _)
      (fun _ h => not_not.2 h) fun _ _ => trivial
  · exact readItems_prompt c' (d.add item)
termination_by c.weight
decreasing_by omega

/-! ### The tokens of a text -/

/-- No two tokens of a text have the same span, the end mark included. -/
theorem Cursor.Inside.span_ne {s : TokenStream} {x : Extent} {n : Nat}
    (h : (ofStream s n).Inside x) {i j : Nat} (hij : i < j) {t t' : Token}
    (ht : s.toList[i]? = some t) (ht' : s.toList[j]? = some t') : t.span ≠ t'.span := by
  have hordered : s.toList.Pairwise fun a b => a.span.stop ≤ b.span.start := by
    refine List.pairwise_append.2 ⟨h.ordered, List.pairwise_singleton _ _, fun t ht e he => ?_⟩
    rw [List.mem_singleton.1 he]
    exact (h.tokens t ht).2.2
  obtain ⟨hi, rfl⟩ := List.getElem?_eq_some_iff.1 ht
  obtain ⟨hj, rfl⟩ := List.getElem?_eq_some_iff.1 ht'
  have hlt : i < s.tokens.length := by
    have : s.toList.length = s.tokens.length + 1 := List.length_append
    omega
  have hget : s.toList[i] = s.tokens[i] := List.getElem_append_left hlt
  have hnonempty : s.tokens[i].span.start < s.tokens[i].span.stop :=
    h.nonempty _ (List.getElem_mem hlt)
  have hle := List.pairwise_iff_getElem.1 hordered i j hi hj hij
  intro hspan
  rw [← hspan, hget] at hle
  omega

namespace TokenStream

variable {s s' : TokenStream} {c : Cursor} {ts rest : List Token}

/-- The token after `ts` is the one that a cursor behind them faces. -/
theorem getElem?_toList (hs : s.tokens = ts ++ rest) (hc : c.file = s.file) :
    s.toList[ts.length]? = some (c.facing rest s.stop).current := by
  rw [toList, hs, ← hc]
  cases rest <;> simp [Cursor.facing, Cursor.current]

theorem take_toList (hs : s.tokens = ts ++ rest) : s.toList.take ts.length = ts := by
  rw [toList, hs, List.append_assoc, List.take_left]

/-- A stream that agrees with another one up to and including the token after `ts` begins with `ts`,
and a cursor behind them faces the same token. -/
theorem exists_rest_of_take (hs : s.tokens = ts ++ rest) (hfile : s'.file = s.file)
    (hc : c.file = s.file)
    (hagree : s'.toList.take (ts.length + 1) = s.toList.take (ts.length + 1)) :
    ∃ rest', s'.tokens = ts ++ rest' ∧
      (c.facing rest' s'.stop).current = (c.facing rest s.stop).current := by
  have htoken : s'.toList[ts.length]? = s.toList[ts.length]? := by
    have h := congrArg (·[ts.length]?) hagree
    simpa [List.getElem?_take] using h
  rw [getElem?_toList hs hc] at htoken
  have hle : ts.length ≤ s'.tokens.length := by
    obtain ⟨hlt, -⟩ := List.getElem?_eq_some_iff.1 htoken
    have : s'.toList.length = s'.tokens.length + 1 := List.length_append
    omega
  have hsplit : s'.tokens = ts ++ s'.tokens.drop ts.length := by
    have h := congrArg (List.take ts.length) hagree
    rw [List.take_take, List.take_take, Nat.min_eq_left (Nat.le_succ _), take_toList hs, toList,
      List.take_append_of_le_length hle] at h
    conv => lhs; rw [← List.take_append_drop ts.length s'.tokens, h]
  refine ⟨_, hsplit, Option.some.inj ?_⟩
  rw [← htoken, getElem?_toList hsplit (hc.trans hfile.symm)]

end TokenStream

/-- The token at place `i` is the first one that does not fit, and `d` says so. -/
structure TokenStream.Rejects (s : TokenStream) (i : Nat) (d : Diagnostic) : Prop where
  /-- The error is at this token, -/
  token : ∃ t, s.toList[i]? = some t ∧ d.span = t.span
  /-- and at no other one. -/
  unique : ∀ j t, s.toList[j]? = some t → d.span = t.span → j = i
  /-- Whatever comes after this token, reading fails in the same way. -/
  settled : ∀ s' : TokenStream, s'.file = s.file →
    s'.toList.take (i + 1) = s.toList.take (i + 1) →
      ∀ n, (readItems (.ofStream s' n) {}).outcome = .error d
  /-- The tokens before it are the beginning of something that can be read. -/
  viable : ∃ more, ∀ stop n, ∃ ds,
    (readItems (.ofStream ⟨s.file, s.toList.take i ++ more, stop⟩ n) {}).outcome = .ok ds

/-- **Syntax errors are reported at the first token that does not fit.** If the tokens of a text
without interpolated strings cannot be read, the error is at one of them, or at the end mark. It is
the same error whatever comes after that token, and the tokens before it can be continued to tokens
that can be read. The token is told by its span, as it is kept in a text of less than 2^32 bytes. -/
theorem readItems_rejects {file : String} {text : List Char} {s : TokenStream}
    (hs : tokenize file text = .ok s) (hplain : ∀ t ∈ s.tokens, t.kind ≠ .interpolated) {n : Nat}
    {d : Diagnostic} (hd : (readItems (.ofStream s n) {}).outcome = .error d) :
    ∃ i, s.Rejects i d := by
  obtain ⟨ts, rest, hrest, hspan, hsame, hgo⟩ :=
    (readItems_prompt (.ofStream s n) {}).error hplain d hd
  have htokens : s.tokens = ts ++ rest := hrest
  have htoken := TokenStream.getElem?_toList (c := .ofStream s n) htokens rfl
  refine ⟨ts.length, ⟨_, htoken, hspan⟩, fun j t ht ht' => ?_, fun s' hfile hagree m => ?_, ?_⟩
  · have hin : (Cursor.ofStream s n).Inside ⟨file, byteLength text⟩ := by
      rw [← s.shift_zero]
      exact inside_of_tokenize hs rfl (Nat.le_of_eq (Nat.zero_add _)) n
    rcases Nat.lt_trichotomy j ts.length with hlt | heq | hlt
    · exact absurd (ht'.symm.trans hspan) (hin.span_ne hlt ht htoken)
    · exact heq
    · exact absurd (hspan.symm.trans ht') (hin.span_ne hlt htoken ht)
  · obtain ⟨rest', htokens', hcurrent⟩ :=
      TokenStream.exists_rest_of_take (c := .ofStream s n) htokens hfile rfl hagree
    have herror := hsame rest' s'.stop hcurrent
    have hcursor : (Cursor.ofStream s n).facing s'.tokens s'.stop = .ofStream s' n := by
      rw [Cursor.ofStream, Cursor.ofStream, hfile]
      rfl
    rw [← htokens', hcursor] at herror
    exact readItems_error s' n m herror
  · rw [TokenStream.take_toList htokens]
    by_cases hts : ts = []
    · subst hts
      exact ⟨[], fun stop n => ⟨{}, (readItems_yields rfl {}).1⟩⟩
    · obtain ⟨us, ds, m, hpass⟩ := hgo hts
      refine ⟨us, fun stop m => ?_⟩
      have hok := (hpass [] stop rfl).1
      rw [List.append_nil] at hok
      cases ho : (readItems (.ofStream ⟨s.file, ts ++ us, stop⟩ m) {}).outcome with
      | ok ds => exact ⟨ds, rfl⟩
      | error e => cases (readItems_error _ m n ho).symm.trans hok

/-- In a text where the right operand of a sum is missing. -/
theorem readItems_rejects_missingOperand :
    ∃ s, tokenize "main.mg" "fn f() \x7b let x = 1 + ; \x7d".toList = .ok s ∧
      (∀ t ∈ s.tokens, t.kind ≠ .interpolated) ∧
      (readItems (.ofStream s 0) {}).outcome = .error ⟨.unexpectedToken ";", ⟨"main.mg", 21, 22⟩⟩ ∧
      s.Rejects 10 ⟨.unexpectedToken ";", ⟨"main.mg", 21, 22⟩⟩ := by
  have hrun : ((tokenize "main.mg" "fn f() \x7b let x = 1 + ; \x7d".toList).toOption.any fun s =>
      decide ((∀ t ∈ s.tokens, t.kind ≠ .interpolated) ∧
        (readItems (.ofStream s 0) {}).outcome.map (fun _ => ()) =
          .error ⟨.unexpectedToken ";", ⟨"main.mg", 21, 22⟩⟩ ∧
        (s.toList[10]?.map (·.span)) = some ⟨"main.mg", 21, 22⟩)) = true := by
    decide +kernel
  obtain ⟨s, hs, hrun⟩ := (Option.any_eq_true _ _).1 hrun
  obtain ⟨hplain, herror, htoken⟩ := of_decide_eq_true hrun
  have hs := eq_ok_of_toOption hs
  have hd : (readItems (.ofStream s 0) {}).outcome =
      .error ⟨.unexpectedToken ";", ⟨"main.mg", 21, 22⟩⟩ := by
    cases ho : (readItems (.ofStream s 0) {}).outcome with
    | ok ds =>
      rw [ho] at herror
      cases herror
    | error d =>
      rw [ho] at herror
      exact congrArg Except.error (Except.error.inj herror)
  obtain ⟨i, h⟩ := readItems_rejects hs hplain hd
  obtain ⟨t, ht, hspan⟩ := Option.map_eq_some_iff.1 htoken
  obtain rfl := h.unique 10 t ht hspan.symm
  exact ⟨s, hs, hplain, hd, h⟩

end MgLang
