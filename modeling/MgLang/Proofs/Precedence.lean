import MgLang.Proofs.RoundTrip
import MgLang.Proofs.Sentences
/-!
# Expressions are read with the right precedence

Whatever `readExpr` accepts at a power is a sentence of the grammar above that power, with the tree
that the grammar gives it, and no operator that binds more strongly is left unread
(`readExpr_precedence`).

`Step.Takes` says which tokens a reader that succeeds has consumed, and what they and the next token
satisfy. There is one lemma for each reader. The one on `readContinuations` carries the invariant of
the loop, `Complete`: the tokens before the cursor are a sentence for the left operand, at a level
that suffices for whatever operator the next token is. An expression that has just been read leaves
no operator stronger than the power it was read at, so it may become the left operand of the next
operator without taking an operand from its own right end.
-/

namespace MgLang

/-! ### No token of a text is an end mark -/

theorem TokenKind.ofWord_ne_eof (word : String) : ofWord word ≠ .eof :=
  lookup_getD_ne (by decide) word keywords (by decide)

theorem Pattern.token?_ne_eof {p : Pattern} {piece : List Char} {kind : TokenKind} {value : String}
    (hp : p ∈ all) (h : p.token? piece = some (kind, value)) : kind ≠ .eof := by
  rintro rfl
  cases p with
  | word =>
    simp only [token?, Option.some.injEq, Prod.mk.injEq] at h
    exact TokenKind.ofWord_ne_eof _ h.1
  | mark k text =>
    simp only [token?, Option.some.injEq, Prod.mk.injEq] at h
    rw [h.1] at hp
    exact absurd hp (by simp [all])
  | _ => simp [token?] at h

theorem tokensFrom_ne_eof {file : String} {pos : Nat} {cs : List Char} {tokens : List Token}
    (h : tokensFrom file pos cs = .ok tokens) : ∀ t ∈ tokens, t.kind ≠ .eof := by
  fun_induction tokensFrom file pos cs generalizing tokens with
  | case1 => cases h; simp
  | case2 => contradiction
  | case3 => contradiction
  | case4 pos c r p n hf piece stop rest hrest hp =>
    rename_i ih
    cases h
    exact ih hrest
  | case5 pos c r p n hf piece stop rest hrest kind value hp =>
    rename_i ih
    cases h
    refine List.forall_mem_cons.2 ⟨?_, ih hrest⟩
    exact Pattern.token?_ne_eof (Pattern.mem_all_of_first? hf) hp

theorem tokenize_ne_eof {file : String} {text : List Char} {s : TokenStream}
    (h : tokenize file text = .ok s) : ∀ t ∈ s.tokens, t.kind ≠ .eof := by
  simp only [tokenize] at h
  split at h
  · contradiction
  · next tokens ht =>
    cases h
    exact tokensFrom_ne_eof ht

theorem shift_ne_eof {s : TokenStream} {k : Nat} (h : ∀ t ∈ s.tokens, t.kind ≠ .eof) :
    ∀ t ∈ (s.shift k).tokens, t.kind ≠ .eof :=
  List.forall_mem_map.2 h

/-- At the end mark of a text nothing is left. -/
theorem Cursor.rest_eq_nil_of_eof {c : Cursor} (h : ∀ t ∈ c.rest, t.kind ≠ .eof)
    (hk : c.kind = .eof) : c.rest = [] := by
  unfold kind current at hk
  cases hr : c.rest with
  | nil => rfl
  | cons t r =>
    rw [hr] at hk h
    exact absurd hk (h t List.mem_cons_self)

/-! ### What a reader takes -/

namespace Step

variable {α β : Type} {j k : Nat} {c : Cursor} {P : List Token → α → TokenKind → Prop}
  {Q : List Token → β → TokenKind → Prop}

/-- Whatever is read, the tokens it was read from and the kind of the token after them satisfy
`P`. -/
def Takes (x : Step k c α) (P : List Token → α → TokenKind → Prop) : Prop :=
  ∀ a, x.outcome = .ok a → ∃ ts, c.rest = ts ++ x.next.rest ∧ P ts a x.next.kind

theorem Takes.done {a : α} (h : P [] a c.kind) : (done c a).Takes P := by
  rintro _ ⟨⟩
  exact ⟨[], rfl, h⟩

theorem Takes.fail (d : Diagnostic) (c' : Cursor) : (fail d c' : Step k c α).Takes P :=
  fun _ h => nomatch h

theorem Takes.andThen {x : Step k c α}
    {f : α → (c' : Cursor) → c'.weight + k ≤ c.weight → Step j c' β} (hx : x.Takes P)
    (hf : ∀ ts a c' h, P ts a c'.kind → (f a c' h).Takes fun us => Q (ts ++ us)) :
    (x.andThen f).Takes Q := by
  obtain ⟨out, next, progress⟩ := x
  cases out with
  | error d => exact Takes.fail d next
  | ok a =>
    intro b hb
    obtain ⟨ts, hts, ha⟩ := hx a rfl
    obtain ⟨us, hus, hq⟩ := hf ts a next (progress a rfl) ha b hb
    have hus : next.rest = us ++ (f a next (progress a rfl)).next.rest := hus
    refine ⟨ts ++ us, ?_, hq⟩
    rw [hts, List.append_assoc]
    exact congrArg _ hus

theorem Takes.mono {P' : List Token → α → TokenKind → Prop} {x : Step k c α} (hx : x.Takes P)
    (h : ∀ ts a next, P ts a next → P' ts a next) : x.Takes P' := by
  intro a ha
  obtain ⟨ts, hts, hp⟩ := hx a ha
  exact ⟨ts, hts, h _ _ _ hp⟩

theorem Takes.weaken {x : Step k c α} (h : x.Takes P) : x.weaken.Takes P := h

theorem Takes.moved {x : Step (k + 1) c α} (h : x.Takes P) : x.moved.Takes P := h

theorem Takes.map {f : α → β} {x : Step k c α} (h : x.Takes fun ts a => Q ts (f a)) :
    (x.map f).Takes Q := by
  refine h.andThen fun ts a c' _ ha => Takes.done ?_
  rw [List.append_nil]
  exact ha

theorem Takes.build {span : Span} {f : Node → α} (h : ∀ n, P [] (f n) c.kind) :
    (c.build span f).Takes P := by
  rintro _ ⟨⟩
  exact ⟨[], rfl, h _⟩

theorem exists_of_andThen_ok {x : Step k c α}
    {f : α → (c' : Cursor) → c'.weight + k ≤ c.weight → Step j c' β} {b : β}
    (h : (x.andThen f).outcome = .ok b) :
    ∃ a, ∃ hle : x.next.weight + k ≤ c.weight,
      x.outcome = .ok a ∧ (f a x.next hle).outcome = .ok b := by
  obtain ⟨out, next, progress⟩ := x
  cases out with
  | error d => cases h
  | ok a => exact ⟨a, progress a rfl, rfl, h⟩

/-- Something that is there. -/
theorem Takes.present {x : Step k c α} {ts : List Token} {R : List Token → α → Prop}
    (h : x.Takes fun us a _ => R (ts ++ us) a) :
    (x.weaken.map some).Takes fun us o _ => Optional R (ts ++ us) o := by
  apply Takes.map
  refine h.weaken.mono ?_
  intro us a _ ha
  exact .present ha

/-- Something that is not there. -/
theorem Takes.absent {R : List Token → α → Prop} :
    (Step.done c none : Step 0 c (Option α)).Takes fun ts o _ => Optional R ts o :=
  .done .absent

/-- Another text is read without a token of this one. -/
theorem Takes.inside {inner : Cursor} {x : Step k inner α} {R : α → Prop}
    (h : ∀ a, x.outcome = .ok a → R a) : (Step.inside c x).Takes fun ts a _ => ts = [] ∧ R a :=
  fun a ha => ⟨[], rfl, rfl, h a ha⟩

end Step

open Step (Takes)

namespace Cursor

variable {c : Cursor}

theorem rest_eq_current_cons (h : c.kind ≠ .eof) : c.rest = c.current :: c.advance.rest := by
  unfold kind current at h
  unfold current advance
  cases hr : c.rest with
  | nil => rw [hr] at h; exact absurd rfl h
  | cons t r => rfl

theorem takes_take (ne : c.kind ≠ .eof) :
    (c.take ne).Takes fun ts t _ => ts = [t] ∧ t = c.current := by
  rintro _ ⟨⟩
  exact ⟨[c.current], rest_eq_current_cons ne, rfl, rfl⟩

theorem takes_expectOr (kind : TokenKind) (d : Diagnostic) :
    (c.expectOr kind d).Takes fun ts t _ => ts = [t] ∧ t.kind = kind := by
  unfold expectOr
  split
  · next h =>
    refine (takes_take _).mono ?_
    rintro ts t _ ⟨hts, rfl⟩
    exact ⟨hts, h.1⟩
  · exact .fail _ _

theorem takes_expectKind {kind : TokenKind} (ne : kind ≠ .eof) (d : Diagnostic) :
    (c.expectKind kind d).Takes fun ts t _ => ts = [t] ∧ t.kind = kind := by
  unfold expectKind
  split
  · next h =>
    rintro _ ⟨⟩
    exact ⟨[c.current], rest_eq_current_cons (h ▸ ne), rfl, h⟩
  · exact .fail _ _

theorem kind_eq_of_expectKind_ok {kind : TokenKind} {d : Diagnostic} {t : Token}
    (h : (c.expectKind kind d).outcome = .ok t) : c.kind = kind := by
  unfold expectKind at h
  split at h
  · assumption
  · cases h

theorem takes_accept {kind : TokenKind} (ne : kind ≠ .eof) :
    (c.accept kind).Takes fun ts b _ => MarkSentence kind ts b := by
  unfold accept
  split
  · next h =>
    rintro _ ⟨⟩
    exact ⟨[c.current], rest_eq_current_cons (h ▸ ne), .present h⟩
  · exact .done .absent

/-- A token is read first. -/
theorem takes_token {α : Type} {j : Nat} {kind : TokenKind} {d : Diagnostic}
    {Q : List Token → α → TokenKind → Prop}
    {f : Token → (c' : Cursor) → c'.weight + 1 ≤ c.weight → Step j c' α}
    (hf : ∀ t c' h, t.kind = kind → (f t c' h).Takes fun us => Q (t :: us)) :
    ((c.expectOr kind d).andThen f).Takes Q := by
  refine (takes_expectOr kind d).andThen ?_
  rintro _ t c' h ⟨rfl, ht⟩
  exact hf t c' h ht

/-- A token is read last. -/
theorem takes_lastToken {α : Type} {kind : TokenKind} {d : Diagnostic}
    {Q : List Token → α → TokenKind → Prop} {f : Token → α}
    (hf : ∀ t k, t.kind = kind → Q [t] (f t) k) : ((c.expectOr kind d).map f).Takes Q := by
  apply Takes.map
  refine (takes_expectOr kind d).mono ?_
  rintro _ t k ⟨rfl, ht⟩
  exact hf t k ht

end Cursor

open Cursor (takes_token takes_lastToken takes_accept)

/-! ### Types, parameters and patterns -/

theorem readPrimitiveTy_takes (c : Cursor) :
    (readPrimitiveTy c).Takes fun ts ty _ => TySentence ts ty := by
  unfold readPrimitiveTy
  split
  · next ty h =>
    apply Takes.map
    refine (c.takes_take _).mono ?_
    rintro _ _ _ ⟨rfl, rfl⟩
    exact .primitive h
  · exact .fail _ _

mutual

theorem readTy_takes (c : Cursor) (power : Power) :
    (readTy c power).Takes fun ts ty _ => TySentence ts ty := by
  rw [readTy]
  refine (readTyHead_takes c).andThen ?_
  intro ts ty c' _ hty
  exact readTySuffixes_takes c' power hty
termination_by 4 * c.weight + 3
decreasing_by all_goals omega

theorem readTyHead_takes (c : Cursor) :
    (readTyHead c).Takes fun ts ty _ => TySentence ts ty := by
  rw [readTyHead]
  split
  iterate 5 exact readPrimitiveTy_takes c
  · exact readNamedTy_takes c
  · exact readFnTy_takes c
  · exact .fail _ _
termination_by 4 * c.weight + 2
decreasing_by all_goals omega

theorem readNamedTy_takes (c : Cursor) :
    (readNamedTy c).Takes fun ts ty _ => TySentence ts ty := by
  rw [readNamedTy]
  refine takes_token ?_
  intro name c' _ hn
  split
  · next wrap hw _ =>
    refine Takes.weaken (takes_token ?_)
    intro left c' _ hl
    refine (readTy_takes c' .default).andThen ?_
    intro ts inner c' _ hi
    refine takes_lastToken ?_
    intro right _ hr
    exact .wrapped hn hw hl hi hr
  · exact .done (.named hn)
termination_by 4 * c.weight + 1
decreasing_by all_goals omega

theorem readFnTy_takes (c : Cursor) :
    (readFnTy c).Takes fun ts ty _ => TySentence ts ty := by
  rw [readFnTy]
  refine takes_token ?_
  intro t c' _ ht
  refine takes_token ?_
  intro left c' _ hl
  refine (readTys_takes c').andThen ?_
  intro ts params c' _ hps
  refine (takes_accept (by decide)).andThen ?_
  intro us arrow c' _ ha
  cases ha with
  | absent =>
    refine .done ?_
    simpa using TySentence.procedure ht hl hps
  | present ha =>
    apply Takes.map
    refine (readTy_takes c' .default).weaken.mono ?_
    intro us ret _ hr
    exact .fn ht hl hps ha hr
termination_by 4 * c.weight + 1
decreasing_by all_goals omega

theorem readTys_takes (c : Cursor) :
    (readTys c).Takes fun ts tys _ => Separated .closeParen TySentence ts tys := by
  rw [readTys]
  split
  · refine takes_lastToken ?_
    intro t _ ht
    exact .nil ht
  · refine (readTy_takes c .default).andThen ?_
    intro ts ty c' _ hty
    refine (takes_accept (by decide)).andThen ?_
    intro us comma c' _ hc
    cases hc with
    | absent =>
      refine takes_lastToken ?_
      intro t _ ht
      exact .last hty ht
    | present ht =>
      apply Takes.map
      refine (readTys_takes c').mono ?_
      intro us tys _ htys
      exact .cons hty ht htys
termination_by 4 * c.weight + 4
decreasing_by all_goals omega

theorem readTySuffixes_takes (c : Cursor) (power : Power) {ts : List Token} {ty : Ty}
    (hty : TySentence ts ty) :
    (readTySuffixes c power ty).Takes fun us ty' _ => TySentence (ts ++ us) ty' := by
  rw [readTySuffixes]
  split
  · refine Takes.weaken (takes_token ?_)
    intro left c' _ hl
    refine takes_token ?_
    intro right c' _ hr
    refine (readTySuffixes_takes c' power (.array hty hl hr)).mono ?_
    intro us ty' _ h
    simpa using h
  · refine .done ?_
    simpa using hty
termination_by 4 * c.weight
decreasing_by all_goals omega

end

theorem readReturnTy_takes (c : Cursor) :
    (readReturnTy c).Takes fun ts ty _ => ReturnSentence ts ty := by
  unfold readReturnTy
  refine (takes_accept (by decide)).andThen ?_
  intro ts arrow c' _ ha
  cases ha with
  | absent => exact .done .void
  | present ha =>
    refine (readTy_takes c' .default).weaken.mono ?_
    intro ts ty _ hty
    exact .arrow ha hty

theorem readParamList_takes (c : Cursor) :
    (readParamList c).Takes fun ts params _ => Separated .closeParen ParamSentence ts params := by
  rw [readParamList]
  split
  · refine takes_lastToken ?_
    intro t _ ht
    exact .nil ht
  · refine takes_token ?_
    intro name c' _ hn
    refine takes_token ?_
    intro colon c' _ hc
    refine (readTy_takes c' .default).andThen ?_
    intro ts ty c' _ hty
    have hp : ParamSentence (name :: colon :: ts) ⟨name.value, ty, c'.spanFrom name.span.start⟩ :=
      .mk hn hc hty
    refine (takes_accept (by decide)).andThen ?_
    intro us comma c' _ hc
    cases hc with
    | absent =>
      refine takes_lastToken ?_
      intro t _ ht
      exact .last hp ht
    | present ht =>
      apply Takes.map
      refine (readParamList_takes c').mono ?_
      intro us params _ hps
      exact .cons hp ht hps
termination_by c.weight
decreasing_by all_goals omega

theorem readParams_takes (c : Cursor) :
    (readParams c).Takes fun ts params _ => ParamsSentence ts params := by
  unfold readParams
  refine takes_token ?_
  intro left c' _ hl
  refine (readParamList_takes c').mono ?_
  intro ts params _ hps
  exact .mk hl hps

theorem readArmPattern_takes (c : Cursor) :
    (readArmPattern c).Takes fun ts pattern _ => PatternSentence ts pattern := by
  unfold readArmPattern
  split
  · refine takes_token ?_
    intro t c' _ ht
    refine takes_token ?_
    intro left c' _ hl
    refine takes_token ?_
    intro name c' _ hn
    refine takes_lastToken ?_
    intro right _ hr
    exact .some ht hl hn hr
  · refine takes_lastToken ?_
    intro t _ ht
    exact .none ht
  · dsimp only
    split
    · next hv =>
      apply Takes.map
      unfold Cursor.expectOr
      split
      · next h =>
        refine (c.takes_take _).mono ?_
        rintro _ _ _ ⟨rfl, rfl⟩
        exact .wildcard h.1 hv
      · exact .fail _ _
    · exact .fail _ _

/-! ### The invariant of the loop -/

/-- The token that starts a continuation. -/
def Continuation.kind : Continuation → TokenKind
  | .assign => .assignment
  | .binary op => op.kind
  | .call => .openParen
  | .index => .openBracket
  | .member => .dot

/-- How strongly what stands left of a continuation has to bind. -/
def Continuation.leftPower : Continuation → Power
  | .assign => Power.assignment.above
  | .binary op => op.power
  | .call | .index | .member => .call

/-- No operator that binds more strongly than `p` starts at a token of that kind. -/
def TokenKind.Stops (next : TokenKind) (p : Power) : Prop :=
  ∀ k, next.continuation? = some k → k.power ≤ p

/-- The tokens are the expression, at a level that is at least `p` and is enough for whatever the
next token continues the expression with. -/
def Complete (p : Power) (ts : List Token) (e : Expr) (next : TokenKind) : Prop :=
  ∃ q, p ≤ q ∧ ExprSentence q ts e ∧ ∀ k, next.continuation? = some k → k.leftPower ≤ q

theorem TokenKind.eq_of_continuation? {kind : TokenKind} {k : Continuation}
    (h : kind.continuation? = some k) : kind = k.kind := by
  cases kind <;> cases h <;> rfl

namespace Continuation

theorem leftPower_le_call (k : Continuation) : k.leftPower ≤ .call := by
  rcases k with _ | op | _ | _ | _
  case binary => cases op <;> decide
  all_goals decide

/-- What ends before an operator no stronger than `p` can stand left of that operator. -/
theorem leftPower_le {k : Continuation} {p : Power} (h : k.power ≤ p) (ha : .logicalOr ≤ p)
    (hu : p ≤ .unary) : k.leftPower ≤ p := by
  rcases k with _ | op | _ | _ | _
  case assign => exact ha
  case binary => exact h
  all_goals
    revert h hu
    cases p <;> decide

theorem comma_lt_power (k : Continuation) : .comma < k.power := by
  rcases k with _ | op | _ | _ | _
  case binary => cases op <;> decide
  all_goals decide

end Continuation

namespace BinaryOp

theorem logicalOr_le_power (op : BinaryOp) : .logicalOr ≤ op.power := by
  cases op <;> decide

theorem power_le_unary (op : BinaryOp) : op.power ≤ .unary := by
  cases op <;> decide

end BinaryOp

namespace Complete

variable {p q : Power} {ts : List Token} {e : Expr} {next : TokenKind}

theorem sentence (h : Complete p ts e next) : ExprSentence p ts e := by
  obtain ⟨q, hpq, he, -⟩ := h
  exact .stronger hpq he

theorem left {k : Continuation} (h : Complete p ts e next) (hk : next.continuation? = some k) :
    ExprSentence k.leftPower ts e := by
  obtain ⟨q, -, he, hq⟩ := h
  exact .stronger (hq k hk) he

theorem mono (h : Complete q ts e next) (hpq : p ≤ q) : Complete p ts e next := by
  obtain ⟨r, hqr, he, hr⟩ := h
  exact ⟨r, Nat.le_trans hpq hqr, he, hr⟩

/-- An expression that ends with brackets or a name can stand before any operator. -/
theorem of_call (hp : p ≤ .call) (h : ExprSentence .call ts e) : Complete p ts e next :=
  ⟨.call, hp, h, fun k _ => k.leftPower_le_call⟩

theorem of_primary (hp : p ≤ .call) (h : ExprSentence .primary ts e) : Complete p ts e next :=
  of_call hp (.stronger (by decide) h)

/-- An operator whose last operand stops before what binds no more strongly than it does. -/
theorem of_stops (hpq : p ≤ q) (ha : .logicalOr ≤ q) (hu : q ≤ .unary) (h : ExprSentence q ts e)
    (hs : next.Stops q) : Complete p ts e next :=
  ⟨q, hpq, h, fun k hk => Continuation.leftPower_le (hs k hk) ha hu⟩

/-- An assignment reads on until nothing can follow. -/
theorem of_assign (hp : p ≤ .assignment) (h : ExprSentence .assignment ts e)
    (hs : next.Stops .comma) : Complete p ts e next := by
  refine ⟨.assignment, hp, h, ?_⟩
  intro k hk
  exact absurd (hs k hk) (Nat.not_le.2 k.comma_lt_power)

end Complete

/-! ### Expressions and statements -/

theorem readLiteral_takes (c : Cursor) :
    (readLiteral c).Takes fun ts e _ => ExprSentence .primary ts e := by
  unfold readLiteral
  split
  · exact .fail _ _
  · next f hf =>
    refine (c.takes_take _).andThen ?_
    rintro _ _ c' _ ⟨rfl, rfl⟩
    refine .build ?_
    intro n
    exact .literal hf

mutual

theorem readExpr_takes (c : Cursor) (power : Power) :
    (readExpr c power).Takes fun ts e next =>
      ExprSentence power.above ts e ∧ next.Stops power := by
  rw [readExpr]
  refine (readOperand_takes c).andThen ?_
  intro ts left c' _ hl
  exact readContinuations_takes c' power (hl.mono power.above_le_unary)
termination_by 8 * c.weight + 5
decreasing_by all_goals omega

/-- An expression that may hold any operator. -/
theorem readWhole_takes (c : Cursor) :
    (readExpr c .default).Takes fun ts e _ => ExprSentence .assignment ts e := by
  refine (readExpr_takes c .default).mono ?_
  intro ts e next h
  exact h.1
termination_by 8 * c.weight + 6
decreasing_by all_goals omega

theorem readOperand_takes (c : Cursor) :
    (readOperand c).Takes fun ts e next => Complete .unary ts e next := by
  rw [readOperand]
  split
  iterate 8
    refine (readLiteral_takes c).mono ?_
    intro ts e next h
    exact .of_primary (by decide) h
  · next h => exact readInterpolated_takes c h
  · refine takes_token ?_
    intro t c' _ ht
    refine takes_token ?_
    intro left c' _ hl
    refine (readWhole_takes c').andThen ?_
    intro ts inner c' _ hi
    refine takes_token ?_
    intro right c' _ hr
    refine .build ?_
    intro n
    exact .of_primary (by decide) (.someOf ht hl hi hr)
  · exact readUnary_takes c .negate
  · exact readUnary_takes c .not
  · refine takes_token ?_
    intro left c' _ hl
    refine (readWhole_takes c').andThen ?_
    intro ts inner c' _ hi
    refine takes_lastToken ?_
    intro right _ hr
    exact .of_primary (by decide) (.parentheses hl hi hr)
  · refine takes_token ?_
    intro t c' _ ht
    refine (readArgs_takes c' (by decide)).andThen ?_
    intro ts items c' _ his
    refine .build ?_
    intro n
    rw [List.append_nil]
    exact .of_primary (by decide) (.array ht his)
  · refine takes_token ?_
    intro t c' _ ht
    refine takes_token ?_
    intro name c' _ hn
    refine takes_token ?_
    intro left c' _ hl
    refine (readArgs_takes c' (by decide)).andThen ?_
    intro ts args c' _ has
    refine .build ?_
    intro n
    rw [List.append_nil]
    exact .of_primary (by decide) (.new ht hn hl has)
  · refine takes_token ?_
    intro t c' _ ht
    refine (readParams_takes c').andThen ?_
    intro ts params c' _ hps
    refine (readReturnTy_takes c').andThen ?_
    intro us ret c' _ hret
    refine (readBlock_takes c').andThen ?_
    intro vs body c' _ hb
    refine .build ?_
    intro n
    rw [List.append_nil]
    exact .of_primary (by decide) (.lambda ht hps hret hb)
  · exact .fail _ _
termination_by 8 * c.weight + 4
decreasing_by all_goals omega

theorem readUnary_takes (c : Cursor) (op : UnaryOp) :
    (readUnary c op.kind op).Takes fun ts e next => Complete .unary ts e next := by
  rw [readUnary]
  refine takes_token ?_
  intro t c' _ ht
  refine (readExpr_takes c' .unary).andThen ?_
  rintro ts operand c' _ ⟨ho, hs⟩
  refine .build ?_
  intro n
  rw [List.append_nil]
  exact .of_stops (by decide) (by decide) (by decide) (.unary ht ho) hs
termination_by 8 * c.weight + 1
decreasing_by all_goals omega

theorem readInterpolated_takes (c : Cursor) (h : c.kind = .interpolated) :
    (readInterpolated c h).Takes fun ts e next => Complete .unary ts e next := by
  have ne : c.kind ≠ .eof := by rw [h]; decide
  have ht : (c.takeInterpolated h).Takes fun ts t _ => ts = [t] ∧ t = c.current :=
    Cursor.takes_take ne
  have hw : Piece.totalWeight (Piece.split 0 c.current.value.toList) ≤ c.current.value.length :=
    Piece.totalWeight_split_le 0 c.current.value.toList
  rw [readInterpolated]
  refine Takes.moved (ht.andThen ?_)
  rintro _ _ c' hc' ⟨rfl, rfl⟩
  refine (readParts_takes c' c.current _).andThen ?_
  rintro _ parts c' _ ⟨rfl, hps⟩
  refine .build ?_
  intro n
  exact .of_primary (by decide) (.interpolated h hps)
termination_by 8 * c.weight + 1
decreasing_by all_goals omega

theorem readParts_takes (c : Cursor) (token : Token) (pieces : List Piece) :
    (readParts c token pieces).Takes fun ts parts _ => ts = [] ∧ PartsSentence pieces parts := by
  match pieces with
  | [] =>
    rw [readParts]
    exact .done ⟨rfl, .nil⟩
  | .text raw :: ps =>
    rw [readParts]
    apply Takes.map
    refine (readParts_takes c token ps).mono ?_
    rintro _ parts _ ⟨rfl, hps⟩
    exact ⟨rfl, .text hps⟩
  | .hole offset source :: ps =>
    rw [readParts]
    split
    · exact .fail _ _
    · next stream lexed =>
      have hw : stream.weight ≤ source.length := weight_le_length lexed
      refine (Takes.inside (R := ExprSentence .assignment
        (stream.shift (token.span.start + 2 + offset)).tokens) ?_).andThen ?_
      · intro e he
        obtain ⟨a, -, hread, hend⟩ := Step.exists_of_andThen_ok he
        obtain ⟨b, -, heof, ⟨⟩⟩ := Step.exists_of_andThen_ok hend
        obtain ⟨ts, hts, ha⟩ := readWhole_takes _ a hread
        have hrest := Cursor.rest_eq_nil_of_eof (fun t ht =>
          shift_ne_eof (tokenize_ne_eof lexed) t (hts ▸ List.mem_append_right ts ht))
          (Cursor.kind_eq_of_expectKind_ok heof)
        rw [hrest, List.append_nil] at hts
        have hts : (stream.shift (token.span.start + 2 + offset)).tokens = ts := hts
        rwa [hts]
      · rintro _ e c' _ ⟨rfl, he⟩
        apply Takes.map
        refine (readParts_takes c' token ps).mono ?_
        rintro _ parts _ ⟨rfl, hps⟩
        exact ⟨rfl, .hole lexed he hps⟩
  | .unclosed :: ps =>
    rw [readParts]
    exact .fail _ _
termination_by 8 * Piece.totalWeight pieces + 6
decreasing_by
  · simp only [Piece.weight, Piece.totalWeight_cons]
    omega
  · simp only [Piece.weight, Piece.totalWeight_cons, Cursor.weight_ofStream,
      TokenStream.weight_shift]
    omega
  · simp only [Piece.weight, Piece.totalWeight_cons]
    omega

/-- The loop. The tokens `pre` before the cursor are the expression read so far. -/
theorem readContinuations_takes (c : Cursor) (power : Power) {pre : List Token} {left : Expr}
    (hl : Complete power.above pre left c.kind) :
    (readContinuations c power left).Takes fun ts e next =>
      ExprSentence power.above (pre ++ ts) e ∧ next.Stops power := by
  rw [readContinuations]
  split
  · next h =>
    refine .done ⟨?_, ?_⟩
    · rw [List.append_nil]
      exact hl.sentence
    · intro k hk
      rw [h] at hk
      cases hk
  · next k hk =>
    split
    · next hle =>
      refine .done ⟨?_, ?_⟩
      · rw [List.append_nil]
        exact hl.sentence
      · intro k' hk'
        rw [hk] at hk'
        cases hk'
        exact hle
    · next hlt =>
      refine Takes.weaken ((readContinuation_takes c power hk (Nat.not_le.1 hlt) (hl.left hk)
        _).andThen ?_)
      intro ts left c' _ hl
      refine (readContinuations_takes c' power hl).mono ?_
      intro us e next h
      rwa [List.append_assoc] at h
termination_by 8 * c.weight + 2
decreasing_by all_goals omega

/-- One turn of the loop. -/
theorem readContinuation_takes (c : Cursor) (power : Power) {k : Continuation}
    {pre : List Token} {left : Expr} (hk : c.kind.continuation? = some k) (hlt : power < k.power)
    (hl : ExprSentence k.leftPower pre left) (ne : c.kind ≠ .eof) :
    (readContinuation c k left ne).Takes fun ts e next =>
      Complete power.above (pre ++ ts) e next := by
  have hkind : c.kind = k.kind := TokenKind.eq_of_continuation? hk
  have hcall : power.above ≤ .call := Nat.le_trans power.above_le_unary (by decide)
  rw [readContinuation]
  refine (Cursor.takes_take ne).andThen ?_
  rintro _ _ c' _ ⟨rfl, rfl⟩
  cases k with
  | assign =>
    refine Takes.weaken ((readExpr_takes c' .comma).andThen ?_)
    rintro ts value c' _ ⟨hv, hs⟩
    refine .build ?_
    intro n
    rw [List.append_nil]
    exact .of_assign (Power.above_le_of_lt hlt (by decide) (by decide)) (.assign hl hkind hv) hs
  | binary op =>
    refine Takes.weaken ((readExpr_takes c' op.power).andThen ?_)
    rintro ts right c' _ ⟨hr, hs⟩
    refine .build ?_
    intro n
    rw [List.append_nil]
    have hor : .logicalOr ≤ op.power := op.logicalOr_le_power
    have hle : power.above ≤ op.power :=
      Power.above_le_of_lt hlt (Nat.le_trans (by decide) hor) op.power_le_unary
    exact .of_stops hle hor op.power_le_unary (.binary hl hkind hr) hs
  | call =>
    refine (readArgs_takes c' (by decide)).andThen ?_
    intro ts args c' _ has
    refine .build ?_
    intro n
    rw [List.append_nil]
    exact .of_call hcall (.call hl hkind has)
  | index =>
    refine Takes.weaken ((readWhole_takes c').andThen ?_)
    intro ts index c' _ hi
    refine takes_token ?_
    intro right c' _ hr
    refine .build ?_
    intro n
    exact .of_call hcall (.index hl hkind hi hr)
  | member =>
    refine Takes.weaken (takes_token ?_)
    intro name c' _ hn
    refine .build ?_
    intro n
    exact .of_call hcall (.member hl hkind hn)
termination_by 8 * c.weight + 1
decreasing_by all_goals omega

theorem readArgs_takes (c : Cursor) {close : TokenKind} (ne : close ≠ .eof) :
    (readArgs c close).Takes fun ts es _ =>
      Separated close (ExprSentence .assignment) ts es := by
  rw [readArgs]
  split
  · apply Takes.map
    refine (Cursor.takes_expectKind ne _).mono ?_
    rintro _ t _ ⟨rfl, ht⟩
    exact .nil ht
  · refine Takes.weaken ((readExpr_takes c .comma).andThen ?_)
    rintro ts arg c' _ ⟨ha, -⟩
    refine (takes_accept (by decide)).andThen ?_
    intro us comma c' _ hc
    cases hc with
    | absent =>
      apply Takes.map
      refine (Cursor.takes_expectKind ne _).mono ?_
      rintro _ t _ ⟨rfl, ht⟩
      exact .last ha ht
    | present ht =>
      apply Takes.map
      refine (readArgs_takes c' ne).mono ?_
      intro us args _ has
      exact .cons ha ht has
termination_by 8 * c.weight + 7
decreasing_by all_goals omega

theorem readBlock_takes (c : Cursor) :
    (readBlock c).Takes fun ts b _ => BlockSentence ts b := by
  rw [readBlock]
  refine takes_token ?_
  intro left c' _ hl
  refine (readStmts_takes c').andThen ?_
  intro ts stmts c' _ hs
  refine .done ?_
  rw [List.append_nil]
  exact .mk hl hs
termination_by 8 * c.weight + 3
decreasing_by all_goals omega

theorem readStmts_takes (c : Cursor) :
    (readStmts c).Takes fun ts ss _ => Closed .closeCurly StmtSentence ts ss := by
  rw [readStmts]
  split
  · refine takes_lastToken ?_
    intro t _ ht
    exact .nil ht
  · exact .fail _ _
  · refine (readStmt_takes c).andThen ?_
    intro ts stmt c' _ hs
    apply Takes.map
    refine (readStmts_takes c').mono ?_
    intro us stmts _ hss
    exact .cons hs hss
termination_by 8 * c.weight + 8
decreasing_by all_goals omega

theorem readStmt_takes (c : Cursor) :
    (readStmt c).Takes fun ts s _ => StmtSentence ts s := by
  rw [readStmt]
  split
  · refine takes_token ?_
    intro t c' _ ht
    refine (takes_accept (by decide)).andThen ?_
    intro ts mutable c' _ hm
    refine takes_token ?_
    intro name c' _ hn
    refine (takes_accept (by decide)).andThen ?_
    intro us colon c' _ hc
    have hty : (if colon then (readTy c' .default).weaken.map some else .done c' none :
        Step 0 c' (Option Ty)).Takes fun vs ty _ => Optional AnnotationSentence (us ++ vs) ty := by
      cases hc with
      | absent => exact .absent
      | present hc =>
        refine Takes.present ((readTy_takes c' .default).mono ?_)
        intro vs ty _ hty
        exact .mk hc hty
    refine hty.andThen ?_
    intro vs ty c' _ hty
    refine takes_token ?_
    intro equals c' _ he
    refine (readWhole_takes c').andThen ?_
    intro ws value c' _ hv
    refine takes_token ?_
    intro semicolon c' _ hs
    refine .done ?_
    simpa using StmtSentence.letStmt ht hm hn hty he hv hs
  · refine takes_token ?_
    intro t c' _ ht
    have hv : (if c'.kind = .semicolon then .done c' none
        else (readExpr c' .default).weaken.map some : Step 0 c' (Option Expr)).Takes
          fun ts value _ => Optional (ExprSentence .assignment) ts value := by
      split
      · exact .absent
      · have h : (readExpr c' .default).Takes fun ts e _ => ExprSentence .assignment ([] ++ ts) e :=
          readWhole_takes c'
        exact h.present
    refine hv.andThen ?_
    intro ts value c' _ hv
    refine takes_token ?_
    intro semicolon c' _ hs
    exact .done (.returnStmt ht hv hs)
  · refine (readIf_takes c).mono ?_
    intro ts s _ hs
    exact .branch hs
  · refine takes_token ?_
    intro t c' _ ht
    refine (readWhole_takes c').andThen ?_
    intro ts condition c' _ hc
    refine (readBlock_takes c').andThen ?_
    intro us body c' _ hb
    refine .done ?_
    rw [List.append_nil]
    exact .whileStmt ht hc hb
  · refine takes_token ?_
    intro t c' _ ht
    refine (takes_accept (by decide)).andThen ?_
    intro ts parenthesised c' _ hl
    refine takes_token ?_
    intro name c' _ hn
    refine takes_token ?_
    intro word c' _ hw
    refine (readWhole_takes c').andThen ?_
    intro us iterable c' _ hi
    have hr : (if parenthesised then (c'.expect .closeParen).weaken.map fun _ => ()
        else .done c' () : Step 0 c' Unit).Takes
          fun vs _ _ => MarkSentence .closeParen vs parenthesised := by
      cases parenthesised with
      | false => exact .done .absent
      | true =>
        apply Takes.map
        refine (Cursor.takes_expectOr _ _).weaken.mono ?_
        rintro _ t _ ⟨rfl, ht⟩
        exact .present ht
    refine hr.andThen ?_
    intro vs _ c' _ hr
    refine (readBlock_takes c').andThen ?_
    intro ws body c' _ hb
    refine .done ?_
    rw [List.append_nil]
    exact .forStmt ht hl hn hw hi hr hb
  · refine takes_token ?_
    intro t c' _ ht
    refine (readWhole_takes c').andThen ?_
    intro ts scrutinee c' _ hs
    refine takes_token ?_
    intro left c' _ hl
    refine (readArms_takes c').andThen ?_
    intro us arms c' _ has
    refine .done ?_
    rw [List.append_nil]
    exact .matchStmt ht hs hl has
  · apply Takes.map
    refine (readBlock_takes c).mono ?_
    intro ts b _ hb
    exact .block hb
  · refine (readWhole_takes c).andThen ?_
    intro ts value c' _ hv
    refine takes_lastToken ?_
    intro semicolon _ hs
    exact .expr hv hs
termination_by 8 * c.weight + 7
decreasing_by all_goals omega

theorem readIf_takes (c : Cursor) :
    (readIf c).Takes fun ts s _ => IfSentence ts s := by
  rw [readIf]
  refine takes_token ?_
  intro t c' _ ht
  refine (readWhole_takes c').andThen ?_
  intro ts condition c' _ hc
  refine (readBlock_takes c').andThen ?_
  intro us body c' _ hb
  refine (takes_accept (by decide)).andThen ?_
  intro vs otherwise c' _ hw
  have ho : (if otherwise then
        if c'.kind = .kwIf then (readIf c').weaken.map some
        else (readBlock c').weaken.map fun b => some (.block b)
      else .done c' none : Step 0 c' (Option Stmt)).Takes
        fun ws o _ => Optional ElseSentence (vs ++ ws) o := by
    cases hw with
    | absent => exact .absent
    | present hw =>
      rw [if_pos rfl]
      split
      · refine Takes.present ((readIf_takes c').mono ?_)
        intro ws s _ hs
        exact .branch hw hs
      · apply Takes.map
        refine (readBlock_takes c').weaken.mono ?_
        intro ws b _ hb
        exact .present (.block hw hb)
  refine ho.andThen ?_
  intro ws otherwise c' _ ho
  refine .done ?_
  simpa using IfSentence.mk ht hc hb ho
termination_by 8 * c.weight + 5
decreasing_by all_goals omega

theorem readArms_takes (c : Cursor) :
    (readArms c).Takes fun ts as _ => Closed .closeCurly ArmSentence ts as := by
  rw [readArms]
  split
  · refine takes_lastToken ?_
    intro t _ ht
    exact .nil ht
  · refine (readArm_takes c).andThen ?_
    intro ts arm c' _ ha
    refine (takes_accept (by decide)).andThen ?_
    intro us comma c' _ hc
    apply Takes.map
    refine (readArms_takes c').mono ?_
    intro vs arms _ has
    have h : Closed .closeCurly ArmSentence (ts ++ us ++ vs) (arm :: arms) := .cons (ha us comma hc) has
    rwa [List.append_assoc] at h
termination_by 8 * c.weight + 8
decreasing_by all_goals omega

theorem readArm_takes (c : Cursor) :
    (readArm c).Takes fun ts arm _ =>
      ∀ us comma, MarkSentence .comma us comma → ArmSentence (ts ++ us) arm := by
  rw [readArm]
  refine (readArmPattern_takes c).andThen ?_
  intro ts pattern c' _ hp
  refine takes_token ?_
  intro t c' _ ht
  have hb : (if c'.kind = .openCurly then readBlock c'
      else
        (readExpr c' .default).andThen fun value c _ =>
          (c.accept .semicolon).map fun _ => ⟨[.expr value], value.span⟩ : Step 1 c' Block).Takes
        fun us b _ => ArmBodySentence us b := by
    split
    · refine (readBlock_takes c').mono ?_
      intro us b _ hb
      exact .block hb
    · refine (readWhole_takes c').andThen ?_
      intro us value c' _ hv
      apply Takes.map
      refine (takes_accept (by decide)).mono ?_
      intro vs semicolon _ hs
      exact .expr hv hs
  refine hb.andThen ?_
  intro us body c' _ hb
  refine .done ?_
  intro vs comma hc
  simpa using ArmSentence.mk hp ht hb hc
termination_by 8 * c.weight + 7
decreasing_by all_goals omega

end

end MgLang
