import MgLang.Proofs.Numbering
import MgLang.Proofs.Shift
/-!
# Reading elsewhere

A reader looks at what the tokens are, and neither at where they stand nor at the numbers that it
hands out. A reading of tokens that stand `k` bytes later, and with numbers that are higher by `d`,
gives the same with places and numbers that are so (`Step.Moved`). There is one lemma for each
reader, up to `readItems_moved`.

A reader of expressions does not look either at where the token before its cursor ended
(`Step.Restarted`), so it reads a text of its own as it reads the rest of another.

`parseSource_renumber` says of a source text how what is read of it at one number becomes what is
read of it at another.
-/

namespace MgLang

/-! ### Trees elsewhere -/

section

variable (d k : Nat)

/-- The expression at a later place, with higher numbers. -/
def Expr.moved (e : Expr) : Expr := (e.renumber (· + d)).shift k

/-- The expressions at a later place, with higher numbers. -/
def movedExprs (es : List Expr) : List Expr := shiftExprs k (renumberExprs (· + d) es)

/-- The pieces of an interpolated string at a later place, with higher numbers. -/
def movedParts (ps : List Part) : List Part := shiftParts k (renumberParts (· + d) ps)

/-- The statement at a later place, with higher numbers. -/
def Stmt.moved (s : Stmt) : Stmt := (s.renumber (· + d)).shift k

/-- The statements at a later place, with higher numbers. -/
def movedStmts (ss : List Stmt) : List Stmt := shiftStmts k (renumberStmts (· + d) ss)

/-- The block at a later place, with higher numbers. -/
def Block.moved (b : Block) : Block := (b.renumber (· + d)).shift k

/-- The arm at a later place, with higher numbers. -/
def Arm.moved (a : Arm) : Arm := ⟨a.pattern.shift k, a.body.moved d k, a.span.shift k⟩

/-- The arms at a later place, with higher numbers. -/
def movedArms (as : List Arm) : List Arm := shiftArms k (renumberArms (· + d) as)

/-- The function at a later place, with higher numbers. -/
def FunctionDecl.moved (f : FunctionDecl) : FunctionDecl := (f.renumber (· + d)).shift k

/-- The field at a later place, with higher numbers. -/
def FieldDecl.moved (f : FieldDecl) : FieldDecl := (f.renumber (· + d)).shift k

/-- The class at a later place, with higher numbers. -/
def ClassDecl.moved (c : ClassDecl) : ClassDecl := (c.renumber (· + d)).shift k

/-- The member at a later place, with higher numbers. -/
def Member.moved : Member → Member
  | field f => .field (f.moved d k)
  | method f => .method (f.moved d k)

/-- The declaration at a later place, with higher numbers. -/
def Item.moved : Item → Item
  | directive u => .directive (u.shift k)
  | function f => .function (f.moved d k)
  | classDecl c => .classDecl (c.moved d k)

/-- The declarations at a later place, with higher numbers. -/
def Declarations.moved (ds : Declarations) : Declarations := (ds.renumber (· + d)).shift k

theorem Expr.span_moved (e : Expr) : (e.moved d k).span = e.span.shift k := by
  rw [moved, span_shift, span_renumber]

theorem movedArms_cons (a : Arm) (as : List Arm) :
    movedArms d k (a :: as) = a.moved d k :: movedArms d k as := by
  cases a
  rfl

end

/-! ### Readings side by side -/

namespace Cursor

/-- The same place in tokens that stand `k` bytes later, where the numbers are higher by `d`. -/
def move (d k : Nat) (c : Cursor) : Cursor where
  file := c.file
  rest := c.rest.map (·.shift k)
  stop := c.stop + k
  lastStop := c.lastStop + k
  nextId := c.nextId + d

section

variable (d k : Nat) (c : Cursor)

theorem current_move : (c.move d k).current = c.current.shift k := by
  obtain ⟨file, rest, stop, lastStop, nextId⟩ := c
  cases rest <;> rfl

@[simp] theorem kind_move : (c.move d k).kind = c.kind := by
  rw [kind, current_move]
  rfl

theorem start_move : (c.move d k).start = c.start + k := by
  rw [start, current_move]
  rfl

theorem advance_move : (c.move d k).advance = c.advance.move d k := by
  obtain ⟨file, rest, stop, lastStop, nextId⟩ := c
  cases rest <;> rfl

theorem unexpected_move : (c.move d k).unexpected = c.unexpected.moved k := by
  rw [unexpected, current_move]
  rfl

theorem expected_move (message : String) :
    (c.move d k).expected message = (c.expected message).moved k := by
  rw [expected, current_move]
  rfl

theorem move_zero : c.move d 0 = { c with nextId := c.nextId + d } := by
  rw [move, map_eq_self (f := (Token.shift · 0)) fun _ => rfl]
  rfl

end

end Cursor

namespace Step

variable {α β : Type} {i i' j j' d k : Nat} {c : Cursor} {φ : α → α} {ψ : β → β}

/-- The second reading gives what the first one gives, at later places and with higher numbers. -/
structure Moved (d k : Nat) (φ : α → α) (x : Step j c α) (y : Step j' (c.move d k) α) : Prop where
  outcome : y.outcome = (x.outcome.map φ).mapError (·.moved k)
  next : y.next = x.next.move d k

namespace Moved

variable {x : Step j c α} {y : Step j' (c.move d k) α}

theorem done {a b : α} (h : b = φ a) : Moved d k φ (done c a) (done (c.move d k) b) :=
  ⟨congrArg Except.ok h, rfl⟩

theorem fail {e e' : Diagnostic} {c' c'' : Cursor} (he : e' = e.moved k)
    (hc : c'' = c'.move d k) : Moved d k φ (fail e c' : Step j c α) (fail e' c'' : Step j' _ α) :=
  ⟨congrArg Except.error he, hc⟩

theorem andThen {f : α → (c' : Cursor) → c'.weight + j ≤ c.weight → Step i c' β}
    {g : α → (c' : Cursor) → c'.weight + j' ≤ (c.move d k).weight → Step i' c' β}
    (hx : Moved d k φ x y)
    (hf : ∀ a c' h h', Moved d k ψ (f a c' h) (g (φ a) (c'.move d k) h')) :
    Moved d k ψ (x.andThen f) (y.andThen g) := by
  obtain ⟨out, next, progress⟩ := x
  obtain ⟨out', next', progress'⟩ := y
  obtain ⟨ho, hn⟩ := hx
  dsimp only at ho hn
  subst ho hn
  cases out with
  | error e => exact ⟨rfl, rfl⟩
  | ok a =>
    have h := hf a next (progress a rfl) (progress' (φ a) rfl)
    exact ⟨h.outcome, h.next⟩

/-- What may be read first has no place and no number in it. -/
theorem optThen {x : Step 0 c α} {y : Step 0 (c.move d k) α}
    {f : α → (c' : Cursor) → c'.weight ≤ c.weight → Step i c' β}
    {g : α → (c' : Cursor) → c'.weight ≤ (c.move d k).weight → Step i' c' β}
    (hx : Moved d k id x y) (hf : ∀ a c' h h', Moved d k ψ (f a c' h) (g a (c'.move d k) h')) :
    Moved d k ψ (x.optThen f) (y.optThen g) := by
  obtain ⟨out, next, progress⟩ := x
  obtain ⟨out', next', progress'⟩ := y
  obtain ⟨ho, hn⟩ := hx
  dsimp only at ho hn
  subst ho hn
  cases out with
  | error e => exact ⟨rfl, rfl⟩
  | ok a =>
    have h := hf a next (progress a rfl) (progress' a rfl)
    exact ⟨h.outcome, h.next⟩

theorem weaken (h : Moved d k φ x y) : Moved d k φ x.weaken y.weaken :=
  ⟨h.outcome, h.next⟩

theorem moved {x : Step (j + 1) c α} {y : Step (j' + 1) (c.move d k) α} (h : Moved d k φ x y) :
    Moved d k φ x.moved y.moved :=
  ⟨h.outcome, h.next⟩

theorem map {f g : α → β} (h : Moved d k φ x y) (hf : ∀ a, g (φ a) = ψ (f a)) :
    Moved d k ψ (x.map f) (y.map g) :=
  h.andThen fun a _ _ _ => .done (hf a)

theorem build {span span' : Span} {f g : Node → α} (hspan : span' = span.shift k)
    (h : ∀ n, g ⟨n + d, span.shift k⟩ = φ (f ⟨n, span⟩)) :
    Moved d k φ (c.build span f) ((c.move d k).build span' g) := by
  subst hspan
  refine ⟨congrArg Except.ok (h c.nextId), ?_⟩
  have hid : c.nextId + d + 1 = c.nextId + 1 + d := Nat.add_right_comm _ _ _
  show { c.move d k with nextId := c.nextId + d + 1 } = _
  rw [hid]
  rfl

/-- What is read inside another text may stand anywhere. -/
theorem inside {inner inner' : Cursor} {x : Step j inner α} {y : Step j' inner' α}
    (ho : y.outcome = (x.outcome.map φ).mapError (·.moved k))
    (hid : y.next.nextId = x.next.nextId + d) :
    Moved d k φ (Step.inside c x) (Step.inside (c.move d k) y) := by
  refine ⟨ho, ?_⟩
  show { c.move d k with nextId := y.next.nextId } = _
  rw [hid]
  rfl

end Moved

end Step

open Step (Moved)

namespace Cursor

variable {d k : Nat} {c : Cursor}

theorem take_moved (h : c.kind ≠ .eof) (h' : (c.move d k).kind ≠ .eof) :
    Moved d k (Token.shift · k) (c.take h) ((c.move d k).take h') :=
  ⟨congrArg Except.ok (c.current_move d k), c.advance_move d k⟩

theorem expectOr_moved (kind : TokenKind) {e e' : Diagnostic} (he : e' = e.moved k) :
    Moved d k (Token.shift · k) (c.expectOr kind e) ((c.move d k).expectOr kind e') := by
  unfold expectOr
  have hkind := c.kind_move d k
  by_cases h : c.kind = kind ∧ kind ≠ .eof
  · rw [dif_pos h, dif_pos (c := (c.move d k).kind = kind ∧ kind ≠ .eof) (hkind ▸ h)]
    exact take_moved _ _
  · rw [dif_neg h, dif_neg (c := (c.move d k).kind = kind ∧ kind ≠ .eof) (hkind ▸ h)]
    exact .fail he rfl

theorem expect_moved (kind : TokenKind) :
    Moved d k (Token.shift · k) (c.expect kind) ((c.move d k).expect kind) :=
  expectOr_moved kind (c.unexpected_move d k)

theorem expectName_moved (message : String) :
    Moved d k (Token.shift · k) (c.expectName message) ((c.move d k).expectName message) :=
  expectOr_moved .identifier (c.expected_move d k message)

theorem expectKind_moved (kind : TokenKind) {e e' : Diagnostic} (he : e' = e.moved k) :
    Moved d k (Token.shift · k) (c.expectKind kind e) ((c.move d k).expectKind kind e') := by
  unfold expectKind
  rw [kind_move]
  split
  · exact ⟨congrArg Except.ok (c.current_move d k), c.advance_move d k⟩
  · exact .fail he rfl

theorem accept_moved (kind : TokenKind) :
    Moved d k id (c.accept kind) ((c.move d k).accept kind) := by
  unfold accept
  rw [kind_move]
  split
  · exact ⟨rfl, c.advance_move d k⟩
  · exact .done rfl

end Cursor

open Cursor (take_moved expect_moved expectOr_moved expectName_moved expectKind_moved accept_moved
  kind_move)

section Readers

variable (d k : Nat)

/-! ### Types have neither places nor numbers in them -/

theorem readPrimitiveTy_moved (c : Cursor) :
    Moved d k id (readPrimitiveTy c) (readPrimitiveTy (c.move d k)) := by
  unfold readPrimitiveTy
  split <;> rename_i h <;> split <;> rename_i h' <;> rw [kind_move] at h' <;>
    cases h.symm.trans h'
  · exact .map (take_moved _ _) fun _ => rfl
  · exact .fail (c.unexpected_move d k) (c.advance_move d k)

mutual

theorem readTy_moved (c : Cursor) (power : Power) :
    Moved d k id (readTy c power) (readTy (c.move d k) power) := by
  rw [readTy, readTy]
  exact (readTyHead_moved c).andThen fun ty c' _ _ => readTySuffixes_moved c' power ty
termination_by 4 * c.weight + 3
decreasing_by all_goals omega

theorem readTyHead_moved (c : Cursor) :
    Moved d k id (readTyHead c) (readTyHead (c.move d k)) := by
  rw [readTyHead, readTyHead, kind_move]
  generalize c.kind = kind
  split
  iterate 5 exact readPrimitiveTy_moved d k c
  · exact readNamedTy_moved c
  · exact readFnTy_moved c
  · exact .fail (c.expected_move d k _) rfl
termination_by 4 * c.weight + 2
decreasing_by all_goals omega

theorem readNamedTy_moved (c : Cursor) :
    Moved d k id (readNamedTy c) (readNamedTy (c.move d k)) := by
  rw [readNamedTy, readNamedTy]
  refine (expect_moved _).andThen fun name c' _ _ => ?_
  have hname : (name.shift k).value = name.value := rfl
  rw [kind_move, hname]
  generalize wrapper? name.value = wrapper, c'.kind = kind
  split
  · refine Moved.weaken ((expect_moved _).andThen fun _ c' _ _ => ?_)
    exact (readTy_moved c' .default).andThen fun _ _ _ _ => .map (expect_moved _) fun _ => rfl
  · exact .done rfl
termination_by 4 * c.weight + 1
decreasing_by all_goals omega

theorem readFnTy_moved (c : Cursor) :
    Moved d k id (readFnTy c) (readFnTy (c.move d k)) := by
  rw [readFnTy, readFnTy]
  refine (expect_moved _).andThen fun _ c' _ _ => (expect_moved _).andThen fun _ c' _ _ => ?_
  refine (readTys_moved c').andThen fun params c' _ _ => (accept_moved _).andThen ?_
  intro arrow c' _ _
  show Moved d k id (if arrow then _ else _) (if arrow then _ else _)
  split
  · exact .map (readTy_moved c' .default).weaken fun _ => rfl
  · exact .done rfl
termination_by 4 * c.weight + 1
decreasing_by all_goals omega

theorem readTys_moved (c : Cursor) :
    Moved d k id (readTys c) (readTys (c.move d k)) := by
  rw [readTys, readTys, kind_move]
  split
  · exact .map (expect_moved _) fun _ => rfl
  · refine (readTy_moved c .default).andThen fun ty c' _ _ => (accept_moved _).andThen ?_
    intro comma c' _ _
    show Moved d k id (if comma then _ else _) (if comma then _ else _)
    split
    · exact .map (readTys_moved c') fun _ => rfl
    · exact .map (expect_moved _) fun _ => rfl
termination_by 4 * c.weight + 4
decreasing_by all_goals omega

theorem readTySuffixes_moved (c : Cursor) (power : Power) (ty : Ty) :
    Moved d k id (readTySuffixes c power ty) (readTySuffixes (c.move d k) power ty) := by
  rw [readTySuffixes, readTySuffixes, kind_move]
  split
  · refine Moved.weaken ((expect_moved _).andThen fun _ c' _ _ => ?_)
    exact (expect_moved _).andThen fun _ c' _ _ => readTySuffixes_moved c' power _
  · exact .done rfl
termination_by 4 * c.weight
decreasing_by all_goals omega

end

theorem readReturnTy_moved (c : Cursor) :
    Moved d k id (readReturnTy c) (readReturnTy (c.move d k)) := by
  refine (accept_moved _).andThen ?_
  intro arrow c' _ _
  show Moved d k id (if arrow then _ else _) (if arrow then _ else _)
  split
  · exact (readTy_moved d k c' .default).weaken
  · exact .done rfl

/-! ### Parameters and patterns have no numbers in them -/

theorem readParamList_moved (c : Cursor) :
    Moved d k (List.map (·.shift k)) (readParamList c) (readParamList (c.move d k)) := by
  rw [readParamList, readParamList, kind_move]
  split
  · exact .map (expect_moved _) fun _ => rfl
  · refine (expectName_moved _).andThen fun name c' _ _ => ?_
    refine (expect_moved _).andThen fun _ c' _ _ => ?_
    refine (readTy_moved d k c' .default).andThen fun ty c' _ _ => (accept_moved _).andThen ?_
    intro comma c' _ _
    show Moved d k _ (if comma then _ else _) (if comma then _ else _)
    split
    · exact .map (readParamList_moved c') fun _ => rfl
    · exact .map (expect_moved _) fun _ => rfl
termination_by c.weight
decreasing_by all_goals omega

theorem readParams_moved (c : Cursor) :
    Moved d k (List.map (·.shift k)) (readParams c) (readParams (c.move d k)) :=
  (expect_moved _).andThen fun _ c' _ _ => readParamList_moved d k c'

theorem readArmPattern_moved (c : Cursor) :
    Moved d k (ArmPattern.shift k) (readArmPattern c) (readArmPattern (c.move d k)) := by
  unfold readArmPattern
  have hvalue : (c.move d k).current.value = c.current.value := by
    rw [Cursor.current_move]
    rfl
  rw [kind_move, hvalue]
  generalize c.kind = kind
  split
  · refine (expect_moved _).andThen fun _ c' _ _ => (expect_moved _).andThen fun _ c' _ _ => ?_
    exact (expect_moved _).andThen fun _ c' _ _ => .map (expect_moved _) fun _ => rfl
  · exact .map (expect_moved _) fun _ => rfl
  · have hfailed := c.expected_move d k "expected `Some(..)`, `None` or `_` pattern"
    show Moved d k _ (if c.current.value = "_" then _ else _)
      (if c.current.value = "_" then _ else _)
    split
    · exact .map (expectOr_moved _ hfailed) fun _ => rfl
    · exact .fail hfailed rfl

end Readers

/-! ### A text of its own -/

/-- The same place, where another token was read before. -/
def Cursor.restart (stop : Nat) (c : Cursor) : Cursor := { c with lastStop := stop }

namespace Step

variable {α β : Type} {i j stop : Nat} {c : Cursor}

/-- Both readings give the same, and where they succeed they come to the same place. -/
structure Restarted (x : Step j c α) (y : Step j (c.restart stop) α) : Prop where
  outcome : y.outcome = x.outcome
  nextId : y.next.nextId = x.next.nextId
  next : ∀ a, x.outcome = .ok a → y.next = x.next

namespace Restarted

variable {x : Step j c α} {y : Step j (c.restart stop) α}

theorem fail {e : Diagnostic} {c' c'' : Cursor} (h : c''.nextId = c'.nextId) :
    Restarted (fail e c' : Step j c α) (fail e c'' : Step j (c.restart stop) α) :=
  ⟨rfl, h, nofun⟩

/-- What is read next is read at the same place. -/
theorem andThen (h : Restarted x y)
    (f : α → (c' : Cursor) → c'.weight + j ≤ c.weight → Step i c' β) :
    Restarted (x.andThen f) (y.andThen f) := by
  obtain ⟨out, next, progress⟩ := x
  obtain ⟨out', next', progress'⟩ := y
  obtain ⟨ho, hid, hn⟩ := h
  dsimp only at ho hid hn
  subst ho
  cases out' with
  | error e => exact .fail hid
  | ok a =>
    cases hn a rfl
    exact ⟨rfl, rfl, fun _ _ => rfl⟩

theorem moved {x : Step (j + 1) c α} {y : Step (j + 1) (c.restart stop) α} (h : Restarted x y) :
    Restarted x.moved y.moved :=
  ⟨h.outcome, h.nextId, h.next⟩

end Restarted

end Step

open Step (Restarted)

section

variable (stop : Nat) (c : Cursor)

theorem Cursor.advance_restart (h : c.kind ≠ .eof) : (c.restart stop).advance = c.advance := by
  obtain ⟨file, rest, last, lastStop, nextId⟩ := c
  cases rest with
  | nil => exact absurd rfl h
  | cons t rest => rfl

theorem Cursor.nextId_advance_restart : (c.restart stop).advance.nextId = c.advance.nextId := by
  rw [nextId_advance, nextId_advance]
  rfl

theorem take_restarted (h : c.kind ≠ .eof) : Restarted (c.take h) ((c.restart stop).take h) :=
  ⟨rfl, c.nextId_advance_restart stop, fun _ _ => c.advance_restart stop h⟩

theorem expect_restarted (kind : TokenKind) :
    Restarted (c.expect kind) ((c.restart stop).expect kind) := by
  unfold Cursor.expect Cursor.expectOr
  by_cases h : c.kind = kind ∧ kind ≠ .eof
  · rw [dif_pos h, dif_pos (c := (c.restart stop).kind = kind ∧ kind ≠ .eof) h]
    exact take_restarted _ _ _
  · rw [dif_neg h, dif_neg (c := (c.restart stop).kind = kind ∧ kind ≠ .eof) h]
    exact .fail rfl

theorem readLiteral_restarted : Restarted (readLiteral c) (readLiteral (c.restart stop)) := by
  unfold readLiteral
  split <;> rename_i h <;> split <;> rename_i h' <;> cases h.symm.trans h'
  · exact .fail (c.nextId_advance_restart stop)
  · exact (take_restarted _ _ _).andThen _

theorem readUnary_restarted (kind : TokenKind) (op : UnaryOp) :
    Restarted (readUnary c kind op) (readUnary (c.restart stop) kind op) := by
  rw [readUnary, readUnary]
  exact (expect_restarted _ _ _).andThen _

theorem readInterpolated_restarted (h : c.kind = .interpolated)
    (h' : (c.restart stop).kind = .interpolated) :
    Restarted (readInterpolated c h) (readInterpolated (c.restart stop) h') := by
  rw [readInterpolated, readInterpolated]
  have ht : Restarted (c.takeInterpolated h) ((c.restart stop).takeInterpolated h') :=
    ⟨rfl, c.nextId_advance_restart stop, fun _ _ => c.advance_restart stop (by simp [h])⟩
  exact (ht.andThen _).moved

/-- An operand begins with a token, so what was read before it is forgotten. -/
theorem readOperand_restarted : Restarted (readOperand c) (readOperand (c.restart stop)) := by
  rw [readOperand, readOperand]
  -- Both readings stand at the same token, so all pairs of different branches are impossible.
  split <;> rename_i h <;> split <;>
    first | contradiction | (next h' => cases h.symm.trans h') | skip
  iterate 8 exact readLiteral_restarted stop c
  · exact readInterpolated_restarted stop c _ _
  · exact (expect_restarted _ _ _).andThen _
  · exact readUnary_restarted stop c _ _
  · exact readUnary_restarted stop c _ _
  · exact (expect_restarted _ _ _).andThen _
  · exact (expect_restarted _ _ _).andThen _
  · exact (expect_restarted _ _ _).andThen _
  · exact (expect_restarted _ _ _).andThen _
  · exact .fail rfl

theorem readExpr_restarted (power : Power) :
    Restarted (readExpr c power) (readExpr (c.restart stop) power) := by
  rw [readExpr, readExpr]
  exact (readOperand_restarted stop c).andThen _

end

section Readers

variable {d k : Nat}

/-! ### Expressions and statements -/

theorem Token.literal_shift (t : Token) :
    (t.shift k).literal = t.literal.mapError (·.moved k) := by
  have hkind : (t.shift k).kind = t.kind := rfl
  have hvalue : (t.shift k).value = t.value := rfl
  unfold literal
  rw [hkind, hvalue]
  cases t.kind with
  | int => cases intValue? t.value <;> rfl
  | _ => rfl

theorem Token.literal_moved {t : Token} {f : Node → Expr} (h : t.literal = .ok f) (n : Nat)
    (span : Span) : f ⟨n + d, span.shift k⟩ = (f ⟨n, span⟩).moved d k := by
  unfold Token.literal at h
  split at h
  · split at h
    · cases h
      rfl
    · cases h
  all_goals
    cases h
  all_goals
    rfl

variable (d k)

theorem readLiteral_moved (c : Cursor) :
    Moved d k (Expr.moved d k) (readLiteral c) (readLiteral (c.move d k)) := by
  have hliteral := c.current.literal_shift (k := k)
  rw [← Cursor.current_move d k c] at hliteral
  unfold readLiteral
  split <;> rename_i h <;> rw [h] at hliteral <;> split <;> rename_i h' <;>
    cases hliteral.symm.trans h'
  · exact .fail rfl (c.advance_move d k)
  · refine (take_moved _ _).andThen fun token c' _ _ => .build rfl fun n => ?_
    exact Token.literal_moved h n _

/-- Reads an expression and the end of its text. -/
def readWhole (c : Cursor) : Step 1 c Expr :=
  (readExpr c .default).andThen fun e c _ => (c.expectKind .eof c.unexpected).map fun _ => e

/-- An expression that is a text of its own gives the same elsewhere if expressions do. -/
theorem readWhole_elsewhere {c : Cursor}
    (h : Moved d k (Expr.moved d k) (readExpr c .default) (readExpr (c.move d k) .default)) :
    (readWhole ((c.move d k).restart 0)).outcome =
        ((readWhole c).outcome.map (Expr.moved d k)).mapError (·.moved k) ∧
      (readWhole ((c.move d k).restart 0)).next.nextId = (readWhole c).next.nextId + d := by
  have hmoved : Moved d k (Expr.moved d k) (readWhole c) (readWhole (c.move d k)) := by
    refine h.andThen fun e c' _ _ => ?_
    exact .map (expectKind_moved _ (c'.unexpected_move d k)) fun _ => rfl
  have hrestarted := (readExpr_restarted 0 (c.move d k) .default).andThen
    fun e c _ => (c.expectKind .eof c.unexpected).map fun _ => e
  have hid := congrArg Cursor.nextId hmoved.next
  exact ⟨hrestarted.outcome.trans hmoved.outcome, hrestarted.nextId.trans hid⟩

/-- A text of its own starts later, as the text around it does. -/
theorem Cursor.ofStream_shift (s : TokenStream) (m n : Nat) :
    ofStream (s.shift (m + k)) (n + d) = ((ofStream (s.shift m) n).move d k).restart 0 := by
  have hshift (t : Token) : t.shift (m + k) = (t.shift m).shift k := by
    simp [Token.shift, Span.shift, Nat.add_assoc]
  simp [ofStream, TokenStream.shift, move, restart, hshift, Nat.add_assoc, Function.comp_def]

mutual

theorem readExpr_moved (c : Cursor) (power : Power) :
    Moved d k (Expr.moved d k) (readExpr c power) (readExpr (c.move d k) power) := by
  rw [readExpr, readExpr]
  exact (readOperand_moved c).andThen fun left c' _ _ => readContinuations_moved c' power left
termination_by 8 * c.weight + 5
decreasing_by all_goals omega

theorem readOperand_moved (c : Cursor) :
    Moved d k (Expr.moved d k) (readOperand c) (readOperand (c.move d k)) := by
  rw [readOperand, readOperand]
  -- Both readings stand at the same token, so all pairs of different branches are impossible.
  have hkind := c.kind_move d k
  split <;> rename_i h <;> split <;>
    first
      | (next h' => cases h.symm.trans (hkind.symm.trans h'))
      | (next h' => exact absurd (hkind.symm.trans h') (by assumption))
      | (simp only [hkind] at *; contradiction)
      | skip
  iterate 8 exact readLiteral_moved d k c
  · exact readInterpolated_moved c _ _
  · refine (expect_moved _).andThen fun token c' _ _ => (expect_moved _).andThen fun _ c' _ _ => ?_
    refine (readExpr_moved c' .default).andThen fun inner c' _ _ => ?_
    exact (expect_moved _).andThen fun _ c' _ _ => .build rfl fun _ => rfl
  · exact readUnary_moved c .dash .negate
  · exact readUnary_moved c .not .not
  · refine (expect_moved _).andThen fun _ c' _ _ => ?_
    refine (readExpr_moved c' .default).andThen fun inner c' _ _ => ?_
    exact .map (expect_moved _) fun _ => rfl
  · refine (expect_moved _).andThen fun token c' _ _ => ?_
    exact (readArgs_moved c' .closeBracket).andThen fun items c' _ _ => .build rfl fun _ => rfl
  · refine (expect_moved _).andThen fun token c' _ _ => ?_
    refine (expectName_moved _).andThen fun name c' _ _ => ?_
    refine (expect_moved _).andThen fun _ c' _ _ => ?_
    exact (readArgs_moved c' .closeParen).andThen fun args c' _ _ => .build rfl fun _ => rfl
  · refine (expect_moved _).andThen fun token c' _ _ => ?_
    refine (readParams_moved d k c').andThen fun params c' _ _ => ?_
    refine (readReturnTy_moved d k c').andThen fun ret c' _ _ => ?_
    exact (readBlock_moved c').andThen fun body c' _ _ => .build rfl fun _ => rfl
  · exact .fail (c.unexpected_move d k) rfl
termination_by 8 * c.weight + 4
decreasing_by all_goals omega

theorem readUnary_moved (c : Cursor) (kind : TokenKind) (op : UnaryOp) :
    Moved d k (Expr.moved d k) (readUnary c kind op) (readUnary (c.move d k) kind op) := by
  rw [readUnary, readUnary]
  refine (expect_moved _).andThen fun token c' _ _ => ?_
  refine (readExpr_moved c' .unary).andThen fun operand c' _ _ => ?_
  rw [Expr.span_moved]
  exact .build rfl fun _ => rfl
termination_by 8 * c.weight + 1
decreasing_by all_goals omega

theorem readInterpolated_moved (c : Cursor) (h : c.kind = .interpolated)
    (h' : (c.move d k).kind = .interpolated) :
    Moved d k (Expr.moved d k) (readInterpolated c h) (readInterpolated (c.move d k) h') := by
  rw [readInterpolated, readInterpolated]
  have ht : Moved d k (Token.shift · k) (c.takeInterpolated h)
      ((c.move d k).takeInterpolated h') :=
    ⟨congrArg Except.ok (c.current_move d k), c.advance_move d k⟩
  have hvalue : (c.move d k).current.value = c.current.value := by
    rw [Cursor.current_move]
    rfl
  refine Moved.moved (ht.andThen fun token c' _ _ => ?_)
  rw [hvalue]
  exact (readParts_moved c' token _).andThen fun parts c' _ _ => .build rfl fun _ => rfl
termination_by 8 * c.weight + 1
decreasing_by
  have := Piece.totalWeight_split_le 0 c.current.value.toList
  simp only [String.length_toList] at this
  omega

theorem readParts_moved (c : Cursor) (token : Token) (pieces : List Piece) :
    Moved d k (movedParts d k) (readParts c token pieces)
      (readParts (c.move d k) (token.shift k) pieces) := by
  match pieces with
  | [] =>
    rw [readParts, readParts]
    exact .done rfl
  | .text raw :: ps =>
    rw [readParts, readParts]
    exact .map (readParts_moved c token ps) fun _ => rfl
  | .hole offset source :: ps =>
    rw [readParts, readParts]
    split <;> rename_i lexed <;> split <;> rename_i lexed' <;> cases lexed.symm.trans lexed'
    · exact .fail (Diagnostic.moved_of_tokenize lexed k).symm rfl
    · rename_i stream
      have hw : stream.weight ≤ source.length := weight_le_length lexed
      refine Moved.andThen (φ := Expr.moved d k) ?_ fun value c' _ _ => ?_
      · have hstart :
            (token.shift k).span.start + 2 + offset = token.span.start + 2 + offset + k := by
          rw [Token.shift, Span.start_shift]
          omega
        have hinner := Cursor.ofStream_shift d k stream (token.span.start + 2 + offset) c.nextId
        have hwhole := readWhole_elsewhere d k
          (readExpr_moved
            (.ofStream (stream.shift (token.span.start + 2 + offset)) c.nextId) .default)
        rw [← hinner, ← hstart] at hwhole
        exact .inside hwhole.1 hwhole.2
      · exact .map (readParts_moved c' token ps) fun _ => rfl
  | .unclosed :: ps =>
    rw [readParts, readParts]
    exact .fail rfl rfl
termination_by 8 * Piece.totalWeight pieces + 6
decreasing_by
  · simp only [Piece.weight, Piece.totalWeight_cons]
    omega
  · simp only [Piece.weight, Piece.totalWeight_cons, Cursor.weight_ofStream,
      TokenStream.weight_shift]
    omega
  · simp only [Piece.weight, Piece.totalWeight_cons]
    omega

theorem readContinuations_moved (c : Cursor) (power : Power) (left : Expr) :
    Moved d k (Expr.moved d k) (readContinuations c power left)
      (readContinuations (c.move d k) power (left.moved d k)) := by
  rw [readContinuations, readContinuations]
  have hkind := congrArg TokenKind.continuation? (c.kind_move d k)
  split
  · next h =>
    split
    · exact .done rfl
    · next h' => cases (hkind.symm.trans h').symm.trans h
  · next op h =>
    by_cases hp : op.power ≤ power
    · rw [if_pos hp]
      split
      · exact .done rfl
      · next h' =>
        cases (hkind.symm.trans h').symm.trans h
        rw [if_pos hp]
        exact .done rfl
    · rw [if_neg hp]
      split
      · next h' => cases (hkind.symm.trans h').symm.trans h
      · next h' =>
        cases (hkind.symm.trans h').symm.trans h
        rw [if_neg hp]
        refine Moved.weaken ((readContinuation_moved c op left _ _).andThen fun left c' _ _ => ?_)
        exact readContinuations_moved c' power left
termination_by 8 * c.weight + 2
decreasing_by all_goals omega

theorem readContinuation_moved (c : Cursor) (op : Continuation) (left : Expr) (ne : c.kind ≠ .eof)
    (ne' : (c.move d k).kind ≠ .eof) :
    Moved d k (Expr.moved d k) (readContinuation c op left ne)
      (readContinuation (c.move d k) op (left.moved d k) ne') := by
  rw [readContinuation, readContinuation]
  refine (take_moved ne ne').andThen fun _ c' _ _ => ?_
  cases op with
  | assign =>
    refine Moved.weaken ((readExpr_moved c' .comma).andThen fun value c' _ _ => ?_)
    rw [Expr.span_moved, Expr.span_moved]
    exact .build rfl fun _ => rfl
  | binary op =>
    refine Moved.weaken ((readExpr_moved c' op.power).andThen fun right c' _ _ => ?_)
    rw [Expr.span_moved, Expr.span_moved]
    exact .build rfl fun _ => rfl
  | call =>
    refine (readArgs_moved c' .closeParen).andThen fun args c' _ _ => ?_
    rw [Expr.span_moved]
    exact .build rfl fun _ => rfl
  | index =>
    refine Moved.weaken ((readExpr_moved c' .default).andThen fun index c' _ _ => ?_)
    refine (expect_moved _).andThen fun _ c' _ _ => ?_
    rw [Expr.span_moved]
    exact .build rfl fun _ => rfl
  | member =>
    refine Moved.weaken ((expectName_moved _).andThen fun name c' _ _ => ?_)
    rw [Expr.span_moved]
    exact .build rfl fun _ => rfl
termination_by 8 * c.weight + 1
decreasing_by all_goals omega

theorem readArgs_moved (c : Cursor) (close : TokenKind) :
    Moved d k (movedExprs d k) (readArgs c close) (readArgs (c.move d k) close) := by
  rw [readArgs, readArgs, kind_move]
  split
  · exact .map (expectKind_moved _ (c.unexpected_move d k)) fun _ => rfl
  · refine Moved.weaken ((readExpr_moved c .comma).andThen fun arg c' _ _ => ?_)
    refine (accept_moved _).andThen fun comma c' _ _ => ?_
    show Moved d k _ (if comma then _ else _) (if comma then _ else _)
    split
    · exact .map (readArgs_moved c' close) fun _ => rfl
    · exact .map (expectKind_moved _ (c'.unexpected_move d k)) fun _ => rfl
termination_by 8 * c.weight + 6
decreasing_by all_goals omega

theorem readBlock_moved (c : Cursor) :
    Moved d k (Block.moved d k) (readBlock c) (readBlock (c.move d k)) := by
  rw [readBlock, readBlock]
  refine (expect_moved _).andThen fun token c' _ _ => ?_
  exact (readStmts_moved c').andThen fun stmts c' _ _ => .done rfl
termination_by 8 * c.weight + 3
decreasing_by all_goals omega

theorem readStmts_moved (c : Cursor) :
    Moved d k (movedStmts d k) (readStmts c) (readStmts (c.move d k)) := by
  rw [readStmts, readStmts, kind_move]
  generalize c.kind = kind
  split
  · exact .map (expect_moved _) fun _ => rfl
  · exact .fail (c.expected_move d k _) rfl
  · refine (readStmt_moved c).andThen fun stmt c' _ _ => ?_
    exact .map (readStmts_moved c') fun _ => rfl
termination_by 8 * c.weight + 7
decreasing_by all_goals omega

theorem readStmt_moved (c : Cursor) :
    Moved d k (Stmt.moved d k) (readStmt c) (readStmt (c.move d k)) := by
  rw [readStmt, readStmt, kind_move]
  generalize c.kind = kind
  split
  · refine (expect_moved _).andThen fun token c' _ _ => (accept_moved _).andThen ?_
    intro mutable c' _ _
    refine (expectName_moved _).andThen fun name c' _ _ => (accept_moved _).andThen ?_
    intro colon c' _ _
    refine Moved.andThen (φ := id) ?_ fun ty c' _ _ => ?_
    · show Moved d k id (if colon then _ else _) (if colon then _ else _)
      split
      · exact .map (readTy_moved d k c' .default).weaken fun _ => rfl
      · exact .done rfl
    refine (expectOr_moved _ (c'.expected_move d k _)).andThen fun _ c' _ _ => ?_
    refine (readExpr_moved c' .default).andThen fun value c' _ _ => ?_
    exact (expect_moved _).andThen fun _ c' _ _ => .done rfl
  · refine (expect_moved _).andThen fun token c' _ _ => ?_
    refine Moved.andThen (φ := Option.map (Expr.moved d k)) ?_ fun value c' _ _ => ?_
    · rw [kind_move]
      split
      · exact .done rfl
      · exact .map (readExpr_moved c' .default).weaken fun _ => rfl
    refine (expect_moved _).andThen fun _ c' _ _ => .done ?_
    cases value <;> rfl
  · exact readIf_moved c
  · refine (expect_moved _).andThen fun token c' _ _ => ?_
    refine (readExpr_moved c' .default).andThen fun condition c' _ _ => ?_
    exact (readBlock_moved c').andThen fun body c' _ _ => .done rfl
  · refine (expect_moved _).andThen fun token c' _ _ => (accept_moved _).andThen ?_
    intro parenthesised c' _ _
    refine (expectName_moved _).andThen fun name c' _ _ => ?_
    refine (expect_moved _).andThen fun _ c' _ _ => ?_
    refine (readExpr_moved c' .default).andThen fun iterable c' _ _ => ?_
    refine Moved.andThen (φ := id) ?_ fun _ c' _ _ => ?_
    · show Moved d k id (if parenthesised then _ else _) (if parenthesised then _ else _)
      split
      · exact .map (expect_moved _).weaken fun _ => rfl
      · exact .done rfl
    exact (readBlock_moved c').andThen fun body c' _ _ => .done rfl
  · refine (expect_moved _).andThen fun token c' _ _ => ?_
    refine (readExpr_moved c' .default).andThen fun scrutinee c' _ _ => ?_
    refine (expect_moved _).andThen fun _ c' _ _ => ?_
    exact (readArms_moved c').andThen fun arms c' _ _ => .done rfl
  · exact .map (readBlock_moved c) fun _ => rfl
  · refine (readExpr_moved c .default).andThen fun value c' _ _ => ?_
    exact .map (expect_moved _) fun _ => rfl
termination_by 8 * c.weight + 6
decreasing_by all_goals omega

theorem readIf_moved (c : Cursor) :
    Moved d k (Stmt.moved d k) (readIf c) (readIf (c.move d k)) := by
  rw [readIf, readIf]
  refine (expect_moved _).andThen fun token c' _ _ => ?_
  refine (readExpr_moved c' .default).andThen fun condition c' _ _ => ?_
  refine (readBlock_moved c').andThen fun body c' _ _ => (accept_moved _).andThen ?_
  intro otherwise c' _ _
  refine Moved.andThen (φ := Option.map (Stmt.moved d k)) ?_ fun otherwise c' _ _ => ?_
  · rw [kind_move]
    show Moved d k _ (if otherwise then _ else _) (if otherwise then _ else _)
    split
    · split
      · exact .map (readIf_moved c').weaken fun _ => rfl
      · exact .map (readBlock_moved c').weaken fun _ => rfl
    · exact .done rfl
  refine .done ?_
  cases otherwise <;> rfl
termination_by 8 * c.weight + 5
decreasing_by all_goals omega

theorem readArms_moved (c : Cursor) :
    Moved d k (movedArms d k) (readArms c) (readArms (c.move d k)) := by
  rw [readArms, readArms, kind_move]
  split
  · exact .map (expect_moved _) fun _ => rfl
  · refine (readArm_moved c).andThen fun arm c' _ _ => (accept_moved _).andThen fun _ c' _ _ => ?_
    exact .map (readArms_moved c') fun arms => (movedArms_cons d k arm arms).symm
termination_by 8 * c.weight + 7
decreasing_by all_goals omega

theorem readArm_moved (c : Cursor) :
    Moved d k (Arm.moved d k) (readArm c) (readArm (c.move d k)) := by
  rw [readArm, readArm, Cursor.start_move]
  refine (readArmPattern_moved d k c).andThen fun pattern c' _ _ => ?_
  refine (expect_moved _).andThen fun _ c' _ _ => ?_
  refine Moved.andThen (φ := Block.moved d k) ?_ fun body c' _ _ => .done rfl
  rw [kind_move]
  split
  · exact readBlock_moved c'
  · refine (readExpr_moved c' .default).andThen fun value c' _ _ => ?_
    rw [Expr.span_moved]
    exact .map (accept_moved _) fun _ => rfl
termination_by 8 * c.weight + 6
decreasing_by all_goals omega

end

/-! ### Declarations -/

theorem readVisibility_moved (c : Cursor) :
    Moved d k id (readVisibility c) (readVisibility (c.move d k)) := by
  unfold readVisibility
  rw [kind_move]
  generalize c.kind = kind
  split
  · exact Moved.weaken (.map (expect_moved _) fun _ => rfl)
  · exact Moved.weaken (.map (expect_moved _) fun _ => rfl)
  · exact .done rfl

theorem readSegments_moved (c : Cursor) (path : String) :
    Moved d k id (readSegments c path) (readSegments (c.move d k) path) := by
  rw [readSegments, readSegments, kind_move]
  split
  · refine Moved.weaken ((expect_moved _).andThen fun _ c' _ _ => ?_)
    exact (expectName_moved _).andThen fun segment c' _ _ => readSegments_moved c' _
  · exact .done rfl
termination_by c.weight
decreasing_by all_goals omega

theorem readUsing_moved (c : Cursor) :
    Moved d k (Using.shift k) (readUsing c) (readUsing (c.move d k)) := by
  refine (expect_moved _).andThen fun token c' _ _ => ?_
  refine (expectName_moved _).andThen fun first c' _ _ => ?_
  refine (readSegments_moved d k c' _).andThen fun path c' _ _ => ?_
  exact (expect_moved _).andThen fun _ _ _ _ => .done rfl

theorem readFunction_moved (c : Cursor) (start : Nat) (isPublic isStatic : Bool) :
    Moved d k (FunctionDecl.moved d k) (readFunction c start isPublic isStatic)
      (readFunction (c.move d k) (start + k) isPublic isStatic) := by
  refine (expect_moved _).andThen fun _ c' _ _ => (expectName_moved _).andThen fun name c' _ _ => ?_
  refine (readParams_moved d k c').andThen fun params c' _ _ => ?_
  refine (readReturnTy_moved d k c').andThen fun ret c' _ _ => ?_
  exact (readBlock_moved d k c').andThen fun body c' _ _ => .done rfl

theorem readField_moved (c : Cursor) (start : Nat) (isPublic isStatic : Bool) :
    Moved d k (FieldDecl.moved d k) (readField c start isPublic isStatic)
      (readField (c.move d k) (start + k) isPublic isStatic) := by
  refine (expect_moved _).andThen fun name c' _ _ => (expect_moved _).andThen fun _ c' _ _ => ?_
  refine (readTy_moved d k c' .default).andThen fun ty c' _ _ => (accept_moved _).andThen ?_
  intro assigned c' _ _
  refine Moved.andThen (φ := Option.map (Expr.moved d k)) ?_ fun initial c' _ _ => ?_
  · show Moved d k _ (if assigned then _ else _) (if assigned then _ else _)
    split
    · exact .map (readExpr_moved d k c' .default).weaken fun _ => rfl
    · exact .done rfl
  refine (expect_moved _).andThen fun _ _ _ _ => .done ?_
  cases initial <;> rfl

theorem readMembers_moved (c : Cursor) :
    Moved d k (List.map (Member.moved d k)) (readMembers c) (readMembers (c.move d k)) := by
  rw [readMembers, readMembers, kind_move, Cursor.start_move]
  split
  · exact .map (expect_moved _) fun _ => rfl
  · refine (readVisibility_moved d k c).optThen fun visibility c' _ _ => ?_
    refine (accept_moved _).optThen fun isStatic c' _ _ => ?_
    refine Moved.andThen (φ := Member.moved d k) ?_ fun x c' _ _ => ?_
    · rw [kind_move]
      generalize c'.kind = kind
      split
      · exact .map (readFunction_moved d k _ _ _ _) fun _ => rfl
      · exact .map (readField_moved d k _ _ _ _) fun _ => rfl
      · exact .fail (c'.expected_move d k _) rfl
    · exact .map (readMembers_moved c') fun _ => rfl
termination_by c.weight
decreasing_by all_goals omega

theorem filterMap_field?_moved (ms : List Member) :
    (ms.map (Member.moved d k)).filterMap Member.field? =
      (ms.filterMap Member.field?).map (FieldDecl.moved d k) := by
  rw [List.filterMap_map, List.map_filterMap]
  refine congrArg (List.filterMap · ms) (funext fun m => ?_)
  cases m <;> rfl

theorem filterMap_method?_moved (ms : List Member) :
    (ms.map (Member.moved d k)).filterMap Member.method? =
      (ms.filterMap Member.method?).map (FunctionDecl.moved d k) := by
  rw [List.filterMap_map, List.map_filterMap]
  refine congrArg (List.filterMap · ms) (funext fun m => ?_)
  cases m <;> rfl

theorem readClass_moved (c : Cursor) (start : Nat) (isPublic : Bool) :
    Moved d k (ClassDecl.moved d k) (readClass c start isPublic)
      (readClass (c.move d k) (start + k) isPublic) := by
  refine (expect_moved _).andThen fun _ c' _ _ => (expectName_moved _).andThen fun name c' _ _ => ?_
  refine (expect_moved _).andThen fun _ c' _ _ => ?_
  refine (readMembers_moved d k c').andThen fun ms c' _ _ => .done ?_
  unfold ClassDecl.moved ClassDecl.renumber ClassDecl.shift
  congr 1
  · rw [List.map_map]
    exact filterMap_field?_moved d k ms
  · rw [List.map_map]
    exact filterMap_method?_moved d k ms

theorem Declarations.add_moved (ds : Declarations) (item : Item) :
    (ds.moved d k).add (item.moved d k) = (ds.add item).moved d k := by
  cases item <;>
    simp [add, Item.moved, moved, renumber, shift, FunctionDecl.moved, ClassDecl.moved]

theorem readItem_moved (c : Cursor) :
    Moved d k (Item.moved d k) (readItem c) (readItem (c.move d k)) := by
  unfold readItem
  rw [kind_move, Cursor.start_move]
  split
  · exact .map (readUsing_moved d k c) fun _ => rfl
  · refine (readVisibility_moved d k c).optThen fun visibility c' _ _ => ?_
    rw [kind_move]
    generalize c'.kind = kind
    split
    · exact .map (readFunction_moved d k _ _ _ _) fun _ => rfl
    · exact .map (readClass_moved d k _ _ _) fun _ => rfl
    · exact .fail (c'.expected_move d k _) rfl

theorem readItems_moved (c : Cursor) (ds : Declarations) :
    Moved d k (Declarations.moved d k) (readItems c ds)
      (readItems (c.move d k) (ds.moved d k)) := by
  rw [readItems, readItems, kind_move]
  split
  · exact .done rfl
  · refine Moved.weaken ((readItem_moved d k c).andThen fun item c' _ _ => ?_)
    rw [Declarations.add_moved]
    exact readItems_moved c' (ds.add item)
termination_by c.weight
decreasing_by all_goals omega

end Readers

/-! ### Source texts -/

/-- Declarations that are read at a higher number get numbers that are higher by as much. -/
theorem readItems_raised (s : TokenStream) (n d : Nat) :
    (readItems (.ofStream s (n + d)) {}).outcome =
        (readItems (.ofStream s n) {}).outcome.map (Declarations.renumber (· + d)) ∧
      (readItems (.ofStream s (n + d)) {}).next.nextId =
        (readItems (.ofStream s n) {}).next.nextId + d := by
  have hmove : Cursor.ofStream s (n + d) = (Cursor.ofStream s n).move d 0 :=
    ((Cursor.ofStream s n).move_zero d).symm
  have h : Moved d 0 (Declarations.moved d 0) (readItems (.ofStream s n) {})
      (readItems ((Cursor.ofStream s n).move d 0) {}) := readItems_moved d 0 _ {}
  rw [hmove, h.outcome, h.next]
  refine ⟨?_, rfl⟩
  cases (readItems (.ofStream s n) {}).outcome with
  | error e => exact congrArg Except.error e.moved_zero
  | ok ds => exact congrArg Except.ok (Declarations.shift_zero _)

/-- A source text that is read at a higher number gets numbers that are higher by as much. -/
theorem parseSource_raised (file text : String) (n d : Nat) :
    parseSource file text (n + d) =
      ((parseSource file text n).1.map (Declarations.renumber (· + d)),
        (parseSource file text n).2 + d) := by
  unfold parseSource
  cases tokenize file text.toList with
  | error e => rfl
  | ok stream =>
    obtain ⟨houtcome, hid⟩ := readItems_raised stream n d
    exact Prod.ext houtcome hid

/-- Whether declarations can be read does not depend on the number, and neither does the error. -/
theorem readItems_error (s : TokenStream) (n m : Nat) {e : Diagnostic}
    (h : (readItems (.ofStream s n) {}).outcome = .error e) :
    (readItems (.ofStream s m) {}).outcome = .error e := by
  have hn := (readItems_raised s 0 n).1
  have hm := (readItems_raised s 0 m).1
  rw [Nat.zero_add] at hn hm
  rw [hm]
  cases ho : (readItems (.ofStream s 0) {}).outcome with
  | ok ds =>
    rw [ho, h] at hn
    cases hn
  | error e' =>
    rw [ho, h] at hn
    cases hn
    rfl

/-- The number of expressions in a source text, up to the first fault. -/
def exprCount (file text : String) : Nat :=
  (parseSource file text 0).2

/-- What is read at a number, from what is read at zero. -/
theorem parseSource_eq (file text : String) (n : Nat) :
    parseSource file text n =
      ((parseSource file text 0).1.map (Declarations.renumber (· + n)),
        exprCount file text + n) := by
  have h := parseSource_raised file text 0 n
  rwa [Nat.zero_add] at h

/-- A renumbering that takes the numbers that are handed out from `n` on to those that are handed
out from `n'` on takes what is read at `n` to what is read at `n'`. -/
theorem parseSource_renumber {ρ : Nat → Nat} {file text : String} {n n' : Nat}
    (h : ∀ i < exprCount file text, ρ (i + n) = i + n') :
    (parseSource file text n').1 = (parseSource file text n).1.map (Declarations.renumber ρ) := by
  rw [parseSource_eq file text n, parseSource_eq file text n']
  cases hp : (parseSource file text 0).1 with
  | error e => rfl
  | ok d =>
    have hmade := (parseSource_made file text 0).2 d hp
    have hd : (d.renumber (· + n)).renumber ρ = d.renumber (· + n') :=
      Declarations.renumber_renumber fun e he => h e.id (hmade.bodies.range e he).2
    exact congrArg Except.ok hd.symm

end MgLang
