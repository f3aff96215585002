import MgLang.Diagnostic.Basic
import MgLang.Text.Bytes
import MgLang.Token.Pattern
/-!
# Tokens of a text

A text is cut from the front: the first pattern that takes anything decides the next piece. A
character that starts no piece ends the reading. This is `tokenize`; the position and the remainder
of its `Lexer` are the arguments of `tokensFrom`. `weight_le_length` bounds the tokens by the text
they come from, which is why the text inside an interpolated string is always the smaller one.
-/

namespace MgLang

namespace TokenKind

theorem lookup_getD_ne {k d : TokenKind} (hd : d ≠ k) (word : String) :
    ∀ l : List (String × TokenKind), (∀ e ∈ l, e.2 ≠ k) → (l.lookup word).getD d ≠ k
  | [], _ => by simpa using hd
  | e :: l, h => by
    rw [List.lookup_cons]
    split
    · exact h e List.mem_cons_self
    · exact lookup_getD_ne hd word l fun x hx => h x (List.mem_cons_of_mem _ hx)

/-- No word is an interpolated string. -/
theorem ofWord_ne_interpolated (word : String) : ofWord word ≠ .interpolated :=
  lookup_getD_ne (by decide) word keywords (by decide)

end TokenKind

namespace Pattern

/-- A token weighs at most as much as the piece it was made from. -/
theorem weight_token?_le {p : Pattern} {piece : List Char} {kind : TokenKind} {value : String}
    (span : Span) (hp : p ∈ all) (hpos : 0 < piece.length)
    (h : p.token? piece = some (kind, value)) :
    Token.weight ⟨kind, value, span⟩ ≤ piece.length := by
  by_cases hk : kind = .interpolated
  · subst hk
    cases p with
    | interpolated =>
      simp only [token?, Option.some.injEq, Prod.mk.injEq, true_and] at h
      subst h
      simp only [Token.weight, if_true, String.length_ofList, List.length_dropLast,
        List.length_drop]
      omega
    | word =>
      simp only [token?, Option.some.injEq, Prod.mk.injEq] at h
      exact absurd h.1 (TokenKind.ofWord_ne_interpolated _)
    | mark k text =>
      simp only [token?, Option.some.injEq, Prod.mk.injEq] at h
      rw [h.1] at hp
      exact absurd hp (by simp [all])
    | _ => simp [token?] at h
  · simp only [Token.weight, if_neg hk]
    omega

theorem mem_all_of_first? {cs : List Char} {p : Pattern} {n : Nat} (h : first? cs = some (p, n)) :
    p ∈ all := by
  obtain ⟨q, hq, hn⟩ := List.exists_of_findSome?_eq_some h
  obtain ⟨m, -, he⟩ := Option.map_eq_some_iff.1 hn
  cases he
  exact hq

end Pattern

/-- The tokens of a text that starts `pos` bytes into the file (the loop of `tokenize`). -/
def tokensFrom (file : String) (pos : Nat) : List Char → Except Diagnostic (List Token)
  | [] => .ok []
  | c :: r =>
    match _found : Pattern.first? (c :: r) with
    | none => .error ⟨.unrecognisedToken (.singleton c), ⟨file, pos, pos + c.utf8Size⟩⟩
    | some (p, n) =>
      let piece := (c :: r).take n
      let stop := pos + byteLength piece
      match tokensFrom file stop ((c :: r).drop n) with
      | .error d => .error d
      | .ok rest =>
        match p.token? piece with
        | none => .ok rest
        | some (kind, value) => .ok (⟨kind, value, ⟨file, pos, stop⟩⟩ :: rest)
termination_by cs => cs.length
decreasing_by
  have := (Pattern.first?_le_length _found).1
  simp only [List.length_drop, List.length_cons]
  omega

/-- The tokens of a text, or the first character that starts none (`tokenize`). -/
def tokenize (file : String) (text : List Char) : Except Diagnostic TokenStream :=
  match tokensFrom file 0 text with
  | .error d => .error d
  | .ok tokens => .ok ⟨file, tokens, byteLength text⟩

theorem weight_tokensFrom_le {file : String} {pos : Nat} {cs : List Char} {tokens : List Token}
    (h : tokensFrom file pos cs = .ok tokens) : Token.totalWeight tokens ≤ cs.length := by
  fun_induction tokensFrom file pos cs generalizing tokens with
  | case1 => cases h; simp
  | case2 => contradiction
  | case3 => contradiction
  | case4 pos c r p n hf piece stop rest hrest hp =>
    rename_i ih
    cases h
    have := ih hrest
    simp only [List.length_drop] at this
    omega
  | case5 pos c r p n hf piece stop rest hrest kind value hp =>
    rename_i ih
    cases h
    obtain ⟨hpos, hle⟩ := Pattern.first?_le_length hf
    have hlen : piece.length = n := by simp only [piece, List.length_take]; omega
    have hr := ih hrest
    have hw := Pattern.weight_token?_le ⟨file, pos, stop⟩
      (Pattern.mem_all_of_first? hf) (by omega) hp
    simp only [List.length_drop] at hr
    simp only [Token.totalWeight_cons]
    omega

theorem weight_le_length {file : String} {text : List Char} {s : TokenStream}
    (h : tokenize file text = .ok s) : s.weight ≤ text.length := by
  simp only [tokenize] at h
  split at h
  · contradiction
  · next tokens ht =>
    cases h
    exact weight_tokensFrom_le ht

end MgLang
