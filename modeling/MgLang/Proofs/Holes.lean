import MgLang.Proofs.Moving
/-!
# Expressions that start later

The holes of an interpolated string are texts of their own that start somewhere in a file. What is
read of such a text is what is read of it at the start of a file, with all places that much later
(`parseExpr_moved`). One thing is left behind: a character that starts no token is reported where it
is in the text, and not where it is in the file (`unrecognised_not_moved`).
-/

namespace MgLang

/-- **The places of an expression count from where its text starts**, and so do those of the faults
that the reader finds. A fault of the lexer is the same wherever the text starts. -/
theorem parseExpr_moved (file text : String) (k n d : Nat) :
    parseExpr file text k (n + d) =
      (((parseExpr file text 0 n).1.map fun e => (e.renumber (· + d)).shift k).mapError
          (Diagnostic.moved k),
        (parseExpr file text 0 n).2 + d) := by
  unfold parseExpr
  cases h : tokenize file text.toList with
  | error e => exact Prod.ext (congrArg Except.error (Diagnostic.moved_of_tokenize h k).symm) rfl
  | ok stream =>
    have hstream := Cursor.ofStream_shift d k stream 0 n
    obtain ⟨houtcome, hid⟩ := readWhole_elsewhere d k
      (readExpr_moved d k (.ofStream (stream.shift 0) n) .default)
    rw [← hstream, Nat.zero_add] at houtcome hid
    exact Prod.ext houtcome hid

/-- The character `#` starts no token. It is reported at the start of the file, although the text
starts five bytes later. -/
theorem unrecognised_not_moved :
    (parseExpr "main.mg" "#" 0 0).1 = .error ⟨.unrecognisedToken "#", ⟨"main.mg", 0, 1⟩⟩ ∧
      (parseExpr "main.mg" "#" 5 0).1 = .error ⟨.unrecognisedToken "#", ⟨"main.mg", 0, 1⟩⟩ ∧
      (⟨"main.mg", 0, 1⟩ : Span) ≠ (⟨"main.mg", 0, 1⟩ : Span).shift 5 := by
  have hlexed : tokensFrom "main.mg" 0 "#".toList =
      .error ⟨.unrecognisedToken "#", ⟨"main.mg", 0, 1⟩⟩ := by
    decide +kernel
  have hread (k : Nat) : (parseExpr "main.mg" "#" k 0).1 =
      .error ⟨.unrecognisedToken "#", ⟨"main.mg", 0, 1⟩⟩ := by
    rw [parseExpr, tokenize, hlexed]
  exact ⟨hread 0, hread 5, by decide⟩

end MgLang
