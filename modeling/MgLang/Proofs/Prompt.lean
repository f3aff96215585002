import MgLang.Grammar.Cursor
import MgLang.Proofs.Printing
/-!
# Readers that look no further than one token

A reader at a cursor is prompt (`Prompt`) if it decides by the tokens that it takes and the one
after them. When it succeeds, it does the same wherever these tokens stand before a token that may
come next; when it fails, it does so at the first token that cannot stand there: whatever comes
after that token it fails in the same way, and the tokens before it are the beginning of something
that can be read.

For the second part a reader must be able to begin anywhere (`Opens`), since what was begun has to
be brought to an end by the readers that were to come next. `Onward` puts together what is needed
of a reader that comes after another, so that readers in a row are prompt if each of them is
(`Prompt.andThen`, `Onward.andThen`).

What may come after a reading is a condition on the value that was read and the kind of the next
token: after a mark that may be left out, and was, that mark may not come.
-/

namespace MgLang

/-- What reads at every cursor. -/
abbrev TokenReader (k : Nat) (α : Type) := (c : Cursor) → Step k c α

namespace Cursor

/-- The same place, with other tokens ahead. -/
def facing (c : Cursor) (rest : List Token) (stop : Nat) : Cursor := { c with rest, stop }

/-- No interpolated string is ahead. -/
def Plain (c : Cursor) : Prop := ∀ t ∈ c.rest, t.kind ≠ .interpolated

variable {c n : Cursor} {rest : List Token} {stop : Nat}

/-- The token ahead depends on the file and on what is ahead. -/
theorem current_facing_congr (h : n.file = c.file) :
    (n.facing rest stop).current = (c.facing rest stop).current := by
  cases rest with
  | nil => exact congrArg (Token.endMark · stop) h
  | cons => rfl

theorem current_facing_rest (hfile : n.file = c.file) (hstop : n.stop = c.stop) :
    (c.facing n.rest c.stop).current = n.current := by
  rw [← current_facing_congr hfile, ← hstop]
  rfl

/-- The token ahead is the first of those that are kept, whatever comes after them. -/
theorem current_facing_kept {ts r : List Token} (hrest : c.rest = ts ++ r) (hts : ts ≠ [])
    (rest : List Token) (stop : Nat) :
    (c.facing (ts ++ rest) stop).current = c.current := by
  obtain ⟨t, ts, rfl⟩ := List.exists_cons_of_ne_nil hts
  unfold current
  rw [hrest]
  rfl

/-- If none is kept, it is the one that comes instead. -/
theorem current_facing_append {ts r : List Token} (hrest : c.rest = ts ++ r)
    (h : (c.facing rest stop).current = (c.facing r c.stop).current) :
    (c.facing (ts ++ rest) stop).current = c.current := by
  by_cases hts : ts = []
  · subst hts
    exact h.trans (congrArg (fun rest => (c.facing rest c.stop).current) hrest.symm)
  · exact current_facing_kept hrest hts rest stop

theorem kind_eq_of_current (h : n.current = c.current) : n.kind = c.kind :=
  congrArg Token.kind h

theorem start_eq_of_current (h : n.current = c.current) : n.start = c.start :=
  congrArg (·.span.start) h

theorem Plain.of_suffix {ts : List Token} (h : c.Plain) (hrest : c.rest = ts ++ n.rest) :
    n.Plain :=
  fun t ht => h t (hrest ▸ List.mem_append_right ts ht)

theorem Plain.kind_ne (h : c.Plain) : c.kind ≠ .interpolated := by
  unfold kind current
  split
  · exact nofun
  · next t r hr => exact h t (hr ▸ List.mem_cons_self)

end Cursor

namespace Step

variable {α : Type} {j k : Nat} {c : Cursor}

/-- The step succeeds with `a` and leads to `n`. -/
def Yields (x : Step k c α) (a : α) (n : Cursor) : Prop := x.outcome = .ok a ∧ x.next = n

/-- The steps give the same and lead to the same place. -/
def Same {c' : Cursor} (x : Step j c α) (y : Step k c' α) : Prop :=
  x.outcome = y.outcome ∧ x.next = y.next

theorem Same.of_eq {x y : Step k c α} (h : x = y) : Same x y := h ▸ ⟨rfl, rfl⟩

theorem Same.yields {c' : Cursor} {x : Step j c α} {y : Step k c' α} (h : Same x y) {a : α}
    {n : Cursor} : x.Yields a n ↔ y.Yields a n := by
  rw [Yields, Yields, h.1, h.2]

variable {β : Type} {x : Step k c α}
  {f : α → (c' : Cursor) → c'.weight + k ≤ c.weight → Step j c' β} {a : α} {n : Cursor}

theorem andThen_error {d : Diagnostic} (hx : x.outcome = .error d) :
    (x.andThen f).outcome = .error d := by
  obtain ⟨out, next, progress⟩ := x
  cases hx
  rfl

/-- Once the first step has succeeded, the rest is what the second one does. -/
theorem andThen_same (hx : x.Yields a n) : ∃ h, Same (x.andThen f) (f a n h) := by
  obtain ⟨out, next, progress⟩ := x
  obtain ⟨ho, hn⟩ := hx
  cases ho
  cases hn
  exact ⟨_, rfl, rfl⟩

theorem andThen_yields {b : β} {m : Cursor} (hx : x.Yields a n)
    (hf : ∀ h, (f a n h).Yields b m) : (x.andThen f).Yields b m := by
  obtain ⟨h, hsame⟩ := andThen_same hx
  exact hsame.yields.2 (hf h)

theorem weaken_same (x : Step k c α) : Same x.weaken x := ⟨rfl, rfl⟩

theorem weaken_map_same (x : Step k c α) (f : α → β) : Same (x.weaken.map f) (x.map f) := by
  obtain ⟨out, next, progress⟩ := x
  cases out <;> exact ⟨rfl, rfl⟩

theorem optThen_same (x : Step 0 c α)
    (f : α → (c' : Cursor) → c'.weight ≤ c.weight → Step j c' β) :
    Same (x.optThen f) (x.andThen f) := by
  obtain ⟨out, next, progress⟩ := x
  cases out <;> exact ⟨rfl, rfl⟩

/-- Both steps give the same, and the second one leads to the same place with `rest` ahead. -/
structure Faces {c' : Cursor} (rest : List Token) (stop : Nat) (x : Step j c α) (y : Step k c' α) :
    Prop where
  outcome : y.outcome = x.outcome
  next : y.next = x.next.facing rest stop

section

variable {i : Nat} {c' : Cursor} {rest : List Token} {stop : Nat}

theorem Faces.andThen {x : Step j c α} {y : Step j c' α}
    {f : α → (n : Cursor) → n.weight + j ≤ c.weight → Step i n β}
    {g : α → (n : Cursor) → n.weight + j ≤ c'.weight → Step i n β} (h : Faces rest stop x y)
    (hfg : ∀ a n hf hg, Faces rest stop (f a n hf) (g a (n.facing rest stop) hg)) :
    Faces rest stop (x.andThen f) (y.andThen g) := by
  obtain ⟨out, next, progress⟩ := x
  obtain ⟨out', next', progress'⟩ := y
  obtain ⟨ho, hn⟩ := h
  dsimp only at ho hn
  subst ho hn
  cases out' with
  | error d => exact ⟨rfl, rfl⟩
  | ok a =>
    obtain ⟨ho, hn⟩ := hfg a next (progress a rfl) (progress' a rfl)
    exact ⟨ho, hn⟩

theorem Faces.map {x : Step j c α} {y : Step j c' α} (h : Faces rest stop x y) (f : α → β) :
    Faces rest stop (x.map f) (y.map f) :=
  h.andThen fun _ _ _ _ => ⟨rfl, rfl⟩

theorem Faces.moved {x : Step (j + 1) c α} {y : Step (k + 1) c' α} (h : Faces rest stop x y) :
    Faces rest stop x.moved y.moved :=
  ⟨h.outcome, h.next⟩

end

theorem next_map (x : Step j c α) (f : α → β) : (x.map f).next = x.next := by
  obtain ⟨out, next, progress⟩ := x
  cases out <;> rfl

theorem next_moved (x : Step (k + 1) c α) : x.moved.next = x.next := rfl

theorem file_next_andThen {file : String} (hx : x.next.file = file)
    (hf : ∀ a n h, n.file = file → (f a n h).next.file = file) :
    (x.andThen f).next.file = file := by
  obtain ⟨out, next, progress⟩ := x
  cases out with
  | error d => exact hx
  | ok a => exact hf a next (progress a rfl) hx

end Step

section

variable {α β : Type} {j k W u : Nat} {c : Cursor}

/-- The tokens `ts` are read as `a` up to `n`, whatever they stand before, as long as the token
after them satisfies `Q`. -/
def Passes (R : TokenReader k α) (c : Cursor) (ts : List Token) (a : α) (n : Cursor)
    (Q : Token → Prop) : Prop :=
  ∀ rest stop, Q (n.facing rest stop).current →
    (R (c.facing (ts ++ rest) stop)).Yields a (n.facing rest stop)

/-- The reader decides by the tokens that it takes and the one after them. `S` says what may come
after what it reads. -/
structure Prompt (R : TokenReader k α) (S : α → TokenKind → Prop) (c : Cursor) : Prop where
  /-- What is read is read before the same token and before any other that may come next. -/
  ok : ∀ a, (R c).outcome = .ok a → ∃ ts, c.rest = ts ++ (R c).next.rest ∧
    (R c).next.file = c.file ∧ (R c).next.stop = c.stop ∧
    Passes R c ts a (R c).next fun t => t = (R c).next.current ∨ S a t.kind
  /-- An error is at the first token that does not fit: it does not depend on what comes after that
  token, and the tokens before it, if there are any, begin something that can be read. -/
  error : c.Plain → ∀ d, (R c).outcome = .error d → ∃ ts rest, c.rest = ts ++ rest ∧
    d.span = (c.facing rest c.stop).current.span ∧
    (∀ rest' stop, (c.facing rest' stop).current = (c.facing rest c.stop).current →
      (R (c.facing (ts ++ rest') stop)).outcome = .error d) ∧
    (ts ≠ [] → ∃ us a n, Passes R c (ts ++ us) a n fun t => S a t.kind)

/-- Something can be read from any place on, and it begins with a token of a kind in `K`. If no
token is needed, this is the kind of what may come after it. -/
def Opens (R : TokenReader k α) (T : α → TokenKind → Prop) (K : TokenKind → Prop) : Prop :=
  ∀ c, ∃ ts a n, (Passes R c ts a n fun t => T a t.kind) ∧
    ∀ rest stop, T a (n.facing rest stop).kind → K (c.facing (ts ++ rest) stop).kind

/-- What is asked of a reader that comes after another one, which may be followed by tokens of the
kinds in `K`. It is prompt wherever at most `W - u` is left to be read. -/
structure Onward (W u : Nat) (R : TokenReader k α) (T : α → TokenKind → Prop)
    (K : TokenKind → Prop) : Prop where
  /-- It can begin anywhere. -/
  opens : Opens R T K
  /-- If it takes nothing, what may come after it may come after the one before it. -/
  stays : ∀ c a, (R c).outcome = .ok a → c.weight ≤ (R c).next.weight → ∀ kind, T a kind → K kind
  /-- It decides by the tokens that it takes and the one after them. -/
  prompt : ∀ c, c.weight + u ≤ W → Prompt R T c

theorem Onward.prompt_at {R : TokenReader k α} {S : α → TokenKind → Prop}
    (h : Onward c.weight 0 R S fun _ => True) : Prompt R S c :=
  h.prompt c (Nat.le_refl _)

/-! ### Readers in a row -/

section

variable {x : TokenReader k α} {F : α → TokenReader j β} {S : α → TokenKind → Prop}
  {T : β → TokenKind → Prop}

/-- Two readings in a row. -/
theorem Passes.andThen {n m : Cursor} {ts us : List Token} {a : α} {b : β} {Q Q' : Token → Prop}
    (hx : Passes x c ts a n Q) (hF : Passes (F a) n us b m Q')
    (h : ∀ rest stop, Q' (m.facing rest stop).current → Q (n.facing (us ++ rest) stop).current) :
    Passes (fun c => (x c).andThen fun a c _ => F a c) c (ts ++ us) b m Q' := by
  intro rest stop hq
  rw [List.append_assoc]
  exact Step.andThen_yields (hx _ stop (h rest stop hq)) fun _ => hF rest stop hq

/-- Where the first reader fails, what it began is brought to an end, and the second one opens. -/
theorem Prompt.andThen_of_error {d : Diagnostic} (hout : (x c).outcome = .error d)
    (hx : Prompt x S c) (hF : ∀ a, Opens (F a) T (S a)) :
    Prompt (fun c => (x c).andThen fun a c _ => F a c) T c := by
  refine ⟨fun b hb => ?_, fun hp e he => ?_⟩
  · rw [Step.andThen_error hout] at hb
    cases hb
  · rw [Step.andThen_error hout] at he
    cases he
    obtain ⟨ts, rest, hrest, hspan, hsame, hgo⟩ := hx.error hp d hout
    refine ⟨ts, rest, hrest, hspan, fun rest' stop h => ?_, fun hts => ?_⟩
    · exact Step.andThen_error (hsame rest' stop h)
    · obtain ⟨us, a, n, hpass⟩ := hgo hts
      obtain ⟨vs, b, m, hopen, hkind⟩ := hF a n
      refine ⟨us ++ vs, b, m, ?_⟩
      rw [← List.append_assoc]
      exact hpass.andThen hopen hkind

/-- Where the first reader succeeds, the second one goes on from the token that was ahead, and if
it takes nothing, what may come after it may come after the first one. -/
theorem Prompt.andThen_of_ok {a : α} (hout : (x c).outcome = .ok a) (hx : Prompt x S c)
    (hF : Onward c.weight k (F a) T (S a)) :
    Prompt (fun c => (x c).andThen fun a c _ => F a c) T c := by
  obtain ⟨hweight, hthen, hnext⟩ := Step.andThen_same (f := fun a c _ => F a c) ⟨hout, rfl⟩
  have hsecond := hF.prompt _ hweight
  refine ⟨fun b hb => ?_, fun hp d hd => ?_⟩
  · rw [hthen] at hb
    obtain ⟨ts, hrest, hfile, hstop, hpass⟩ := hx.ok a hout
    obtain ⟨us, hrest', hfile', hstop', hpass'⟩ := hsecond.ok b hb
    rw [hnext]
    refine ⟨ts ++ us, ?_, hfile'.trans hfile, hstop'.trans hstop, hpass.andThen hpass' ?_⟩
    · rw [hrest, hrest', List.append_assoc]
    intro rest stop hq
    by_cases hus : us = []
    · subst hus
      rw [List.nil_append, ← Cursor.current_facing_congr hfile']
      refine hq.imp (fun hq => ?_) (hF.stays _ b hb ?_ _)
      · rw [hq, ← Cursor.current_facing_rest hfile' hstop', ← List.nil_append (Cursor.rest _),
          ← hrest']
        rfl
      · exact Nat.le_of_eq (congrArg Token.totalWeight hrest')
    · exact .inl (Cursor.current_facing_kept hrest' hus _ _)
  · rw [hthen] at hd
    obtain ⟨ts, hrest, hfile, hstop, hpass⟩ := hx.ok a hout
    obtain ⟨us, rest, hrest', hspan, hsame, hgo⟩ := hsecond.error (hp.of_suffix hrest) d hd
    have hcurrent (rest : List Token) (stop : Nat) :
        ((x c).next.facing rest stop).current = (c.facing rest stop).current :=
      Cursor.current_facing_congr hfile
    refine ⟨ts ++ us, rest, ?_, ?_, fun rest' stop h => ?_, fun _ => ?_⟩
    · rw [hrest, hrest', List.append_assoc]
    · rw [hspan, hstop, hcurrent]
    · rw [← hcurrent, ← hcurrent, ← hstop] at h
      rw [List.append_assoc]
      have hfirst := hpass _ stop (.inl (Cursor.current_facing_append hrest' h))
      obtain ⟨_, hthen', -⟩ := Step.andThen_same (f := fun a c _ => F a c) hfirst
      exact hthen'.trans (hsame rest' stop h)
    · by_cases hus : us = []
      · obtain ⟨vs, b, m, hopen, hkind⟩ := hF.opens (x c).next
        refine ⟨vs, b, m, ?_⟩
        rw [hus, List.append_nil]
        exact hpass.andThen hopen fun rest stop hq => .inr (hkind rest stop hq)
      · obtain ⟨vs, b, m, hpass'⟩ := hgo hus
        refine ⟨vs, b, m, ?_⟩
        rw [List.append_assoc]
        refine hpass.andThen hpass' fun rest' stop _ => .inl ?_
        rw [List.append_assoc]
        exact Cursor.current_facing_kept hrest' hus _ _

/-- **Readers in a row.** A reader followed by another, depending on what was read, is prompt if it
is prompt itself and the other can go on from it. -/
theorem Prompt.andThen (hx : Prompt x S c) (hF : ∀ a, Onward c.weight k (F a) T (S a)) :
    Prompt (fun c => (x c).andThen fun a c _ => F a c) T c := by
  cases hout : (x c).outcome with
  | error d => exact hx.andThen_of_error hout fun a => (hF a).opens
  | ok a => exact hx.andThen_of_ok hout (hF a)

theorem Opens.andThen {K : TokenKind → Prop} (hx : Opens x S K) (hF : ∀ a, Opens (F a) T (S a)) :
    Opens (fun c => (x c).andThen fun a c _ => F a c) T K := by
  intro c
  obtain ⟨ts, a, n, hpass, hkind⟩ := hx c
  obtain ⟨us, b, m, hpass', hkind'⟩ := hF a n
  refine ⟨ts ++ us, b, m, hpass.andThen hpass' hkind', fun rest stop hq => ?_⟩
  rw [List.append_assoc]
  exact hkind _ stop (hkind' rest stop hq)

/-- Readers in a row can go on if each of them can. -/
theorem Onward.andThen {K : TokenKind → Prop} (hx : Onward W u x S K)
    (hF : ∀ a, Onward W (u + k) (F a) T (S a)) :
    Onward W u (fun c => (x c).andThen fun a c _ => F a c) T K := by
  refine ⟨hx.opens.andThen fun a => (hF a).opens, fun c b hb hle kind hT => ?_, fun c hc => ?_⟩
  · cases hout : (x c).outcome with
    | error d =>
      rw [Step.andThen_error hout] at hb
      cases hb
    | ok a =>
      obtain ⟨hweight, hthen, hnext⟩ := Step.andThen_same (f := fun a c _ => F a c) ⟨hout, rfl⟩
      rw [hthen] at hb
      rw [hnext] at hle
      have hsecond := (F a (x c).next).progress b hb
      exact hx.stays c a hout (by omega) kind ((hF a).stays _ b hb (by omega) kind hT)
  · refine (hx.prompt c hc).andThen fun a => ⟨(hF a).opens, (hF a).stays, fun n hn => ?_⟩
    exact (hF a).prompt n (by omega)

end

/-! ### One step -/

section

variable {R : TokenReader k α} {S : α → TokenKind → Prop} {a : α}

/-- A reader that steps over a token, and gives what that token alone decides. -/
theorem Prompt.of_step (hkind : c.kind ≠ .eof)
    (h : ∀ c', c'.current = c.current → (R c').Yields a c'.advance) : Prompt R S c := by
  obtain ⟨ho, hn⟩ := h c rfl
  have hrest : ∃ t r, c.rest = t :: r := by
    refine List.exists_cons_of_ne_nil fun hnil => hkind ?_
    rw [Cursor.kind, Cursor.current, hnil]
    rfl
  obtain ⟨t, r, hrest⟩ := hrest
  have hadvance : c.advance = { c with rest := r, lastStop := t.span.stop } := by
    rw [Cursor.advance, hrest]
  refine ⟨fun b hb => ?_, fun _ d hd => ?_⟩
  · cases ho.symm.trans hb
    rw [hn, hadvance]
    refine ⟨[t], hrest, rfl, rfl, fun rest stop _ => h _ ?_⟩
    have hkept : c.rest = [t] ++ r := hrest
    exact Cursor.current_facing_kept hkept (List.cons_ne_nil t []) rest stop
  · cases ho.symm.trans hd

/-- A reader that fails at the token at the cursor. -/
theorem Prompt.of_fail {d : Diagnostic} (hspan : d.span = c.current.span)
    (h : ∀ c', c'.current = c.current → (R c').outcome = .error d) : Prompt R S c := by
  refine ⟨fun a ha => ?_, fun _ e he => ?_⟩
  · cases (h c rfl).symm.trans ha
  · cases (h c rfl).symm.trans he
    exact ⟨[], c.rest, rfl, hspan, fun rest stop hc => h _ hc, fun hne => absurd rfl hne⟩

/-- A reader that reads nothing, and gives what does not depend on what comes next. -/
theorem Prompt.of_stay {n : Cursor} (hrest : n.rest = c.rest) (hfile : n.file = c.file)
    (hstop : n.stop = c.stop)
    (h : ∀ rest stop, (n.facing rest stop).current = n.current ∨ S a (n.facing rest stop).kind →
      (R (c.facing rest stop)).Yields a (n.facing rest stop)) : Prompt R S c := by
  have hn : n.facing c.rest c.stop = n := by
    rw [← hrest, ← hstop]
    rfl
  obtain ⟨ho, hnext⟩ := h c.rest c.stop (.inl (congrArg Cursor.current hn))
  rw [hn] at hnext
  have ho : (R c).outcome = .ok a := ho
  have hnext : (R c).next = n := hnext
  refine ⟨fun b hb => ?_, fun _ d hd => ?_⟩
  · cases ho.symm.trans hb
    rw [hnext]
    exact ⟨[], hrest.symm, hfile, hstop, fun rest stop hq => h rest stop hq⟩
  · cases ho.symm.trans hd

/-- A reader that has a token to read may be replaced by what it does at this token. -/
theorem Prompt.branch {R' : TokenReader (j + 1) α}
    (h : ∀ c', c'.current = c.current → Step.Same (R c') (R' c')) (hR : Prompt R' S c) :
    Prompt R S c := by
  obtain ⟨ho, hn⟩ := h c rfl
  refine ⟨fun a ha => ?_, fun hp d hd => ?_⟩
  · rw [ho] at ha
    rw [hn]
    obtain ⟨ts, hrest, hfile, hstop, hpass⟩ := hR.ok a ha
    refine ⟨ts, hrest, hfile, hstop, fun rest stop hq => ?_⟩
    -- What was taken is not nothing, so the token at the cursor is one of those that are kept.
    have hts : ts ≠ [] := by
      rintro rfl
      have hweight : c.weight = (R' c).next.weight := congrArg Token.totalWeight hrest
      have := (R' c).progress a ha
      omega
    obtain ⟨ho', hn'⟩ := h _ (Cursor.current_facing_kept hrest hts rest stop)
    exact ⟨ho'.trans (hpass rest stop hq).1, hn'.trans (hpass rest stop hq).2⟩
  · rw [ho] at hd
    obtain ⟨ts, r, hrest, hspan, hsame, hgo⟩ := hR.error hp d hd
    refine ⟨ts, r, hrest, hspan, fun rest stop hc => ?_, fun hts => ?_⟩
    · exact (h _ (Cursor.current_facing_append hrest hc)).1.trans (hsame rest stop hc)
    · obtain ⟨us, a, n, hpass⟩ := hgo hts
      refine ⟨us, a, n, fun rest stop hq => ?_⟩
      have hkept := Cursor.current_facing_kept hrest hts (us ++ rest) stop
      rw [← List.append_assoc] at hkept
      obtain ⟨ho', hn'⟩ := h _ hkept
      exact ⟨ho'.trans (hpass rest stop hq).1, hn'.trans (hpass rest stop hq).2⟩

/-! ### The same steps -/

theorem Passes.congr {R' : TokenReader j α} {ts : List Token} {n : Cursor} {Q : Token → Prop}
    (h : ∀ rest stop, Step.Same (R (c.facing rest stop)) (R' (c.facing rest stop)))
    (hR : Passes R' c ts a n Q) : Passes R c ts a n Q :=
  fun rest stop hq => (h _ stop).yields.2 (hR rest stop hq)

theorem Prompt.congr {R' : TokenReader j α}
    (h : ∀ rest stop, Step.Same (R (c.facing rest stop)) (R' (c.facing rest stop)))
    (hR : Prompt R' S c) : Prompt R S c := by
  obtain ⟨ho, hn⟩ : Step.Same (R c) (R' c) := h c.rest c.stop
  refine ⟨fun a ha => ?_, fun hp d hd => ?_⟩
  · obtain ⟨ts, hrest, hfile, hstop, hpass⟩ := hR.ok a (ho.symm.trans ha)
    rw [hn]
    exact ⟨ts, hrest, hfile, hstop, hpass.congr h⟩
  · obtain ⟨ts, r, hrest, hspan, hsame, hgo⟩ := hR.error hp d (ho.symm.trans hd)
    refine ⟨ts, r, hrest, hspan, fun rest stop hc => ?_, fun hts => ?_⟩
    · exact (h _ stop).1.trans (hsame rest stop hc)
    · obtain ⟨us, a, n, hpass⟩ := hgo hts
      exact ⟨us, a, n, hpass.congr h⟩

theorem Onward.congr {R' : TokenReader j α} {K : TokenKind → Prop}
    (h : ∀ c, Step.Same (R c) (R' c)) (hR : Onward W u R' S K) : Onward W u R S K := by
  refine ⟨fun c => ?_, fun c a ha hle => ?_, fun c hc => (hR.prompt c hc).congr fun _ _ => h _⟩
  · obtain ⟨ts, a, n, hpass, hkind⟩ := hR.opens c
    exact ⟨ts, a, n, hpass.congr fun _ _ => h _, hkind⟩
  · rw [(h c).1] at ha
    rw [(h c).2] at hle
    exact hR.stays c a ha hle

theorem Onward.weaken {K : TokenKind → Prop} (hR : Onward W u R S K) :
    Onward W u (fun c => (R c).weaken) S K :=
  .congr (fun _ => Step.weaken_same _) hR

theorem Prompt.optThen {x : TokenReader 0 α} {F : α → TokenReader j β} {T : β → TokenKind → Prop}
    (hx : Prompt x S c) (hF : ∀ a, Onward c.weight 0 (F a) T (S a)) :
    Prompt (fun c => (x c).optThen fun a c _ => F a c) T c :=
  (hx.andThen hF).congr fun _ _ => Step.optThen_same _ _

theorem Onward.optThen {x : TokenReader 0 α} {F : α → TokenReader j β} {T : β → TokenKind → Prop}
    {K : TokenKind → Prop} (hx : Onward W u x S K) (hF : ∀ a, Onward W u (F a) T (S a)) :
    Onward W u (fun c => (x c).optThen fun a c _ => F a c) T K :=
  (hx.andThen hF).congr fun _ => Step.optThen_same _ _

/-- The second reader may depend on the place where the first one began, but not on what was ahead
there. -/
theorem Onward.andThenFrom {F : Cursor → α → TokenReader j β} {T : β → TokenKind → Prop}
    {K : TokenKind → Prop} (hR : Onward W u R S K) (hF : ∀ c a, Onward W (u + k) (F c a) T (S a))
    (hfacing : ∀ c rest stop, F (Cursor.facing c rest stop) = F c := by intros; rfl) :
    Onward W u (fun c => (R c).andThen fun a c' _ => F c a c') T K := by
  have hsame (c : Cursor) (rest : List Token) (stop : Nat) :
      Step.Same ((R (c.facing rest stop)).andThen fun a c' _ => F (c.facing rest stop) a c')
        ((R (c.facing rest stop)).andThen fun a c' _ => F c a c') := by
    rw [hfacing]
    exact ⟨rfl, rfl⟩
  refine ⟨fun c => ?_, fun c b => (hR.andThen (hF c)).stays c b, fun c hc => ?_⟩
  · obtain ⟨ts, b, n, hpass, hkind⟩ := (hR.andThen (hF c)).opens c
    exact ⟨ts, b, n, hpass.congr (hsame c), hkind⟩
  · exact ((hR.andThen (hF c)).prompt c hc).congr (hsame c)

theorem Prompt.mono {S' : α → TokenKind → Prop} (hR : Prompt R S c)
    (h : ∀ a kind, S' a kind → S a kind) : Prompt R S' c := by
  refine ⟨fun a ha => ?_, fun hp d hd => ?_⟩
  · obtain ⟨ts, hrest, hfile, hstop, hpass⟩ := hR.ok a ha
    exact ⟨ts, hrest, hfile, hstop, fun rest stop hq => hpass rest stop (hq.imp_right (h a _))⟩
  · obtain ⟨ts, r, hrest, hspan, hsame, hgo⟩ := hR.error hp d hd
    refine ⟨ts, r, hrest, hspan, hsame, fun hts => ?_⟩
    obtain ⟨us, a, n, hpass⟩ := hgo hts
    exact ⟨us, a, n, fun rest stop hq => hpass rest stop (h a _ hq)⟩

theorem Opens.mono {S' : α → TokenKind → Prop} {K : TokenKind → Prop} (hR : Opens R S K)
    (h : ∀ a kind, S' a kind → S a kind) : Opens R S' K := by
  intro c
  obtain ⟨ts, a, n, hpass, hkind⟩ := hR c
  exact ⟨ts, a, n, fun rest stop hq => hpass rest stop (h a _ hq), fun rest stop hq =>
    hkind rest stop (h a _ hq)⟩

/-! ### What readers are made of -/

/-- A reader that takes nothing. What it gives may depend on the place, but not on what is ahead. -/
theorem Onward.done {g : Cursor → α} {K : TokenKind → Prop}
    (hK : ∀ c kind, S (g c) kind → K kind)
    (hg : ∀ c rest stop, g (Cursor.facing c rest stop) = g c := by intros; rfl) :
    Onward W u (fun c => Step.done c (g c)) S K := by
  refine ⟨fun c => ⟨[], g c, c, fun rest stop _ => ?_, fun rest stop h => hK c _ h⟩, ?_, ?_⟩
  · exact ⟨congrArg Except.ok (hg c rest stop), rfl⟩
  · rintro c _ ⟨⟩ - kind h
    exact hK c kind h
  · exact fun c _ => .of_stay rfl rfl rfl fun rest stop _ =>
      ⟨congrArg Except.ok (hg c rest stop), rfl⟩

theorem Onward.build {span : Cursor → Span} {f : Cursor → Node → α} {K : TokenKind → Prop}
    (hK : ∀ a kind, S a kind → K kind)
    (hspan : ∀ c rest stop, span (Cursor.facing c rest stop) = span c := by intros; rfl)
    (hf : ∀ c rest stop, f (Cursor.facing c rest stop) = f c := by intros; rfl) :
    Onward W u (fun c => c.build (span c) (f c)) S K := by
  have hyields (c : Cursor) (rest : List Token) (stop : Nat) :
      ((c.facing rest stop).build (span (c.facing rest stop)) (f (c.facing rest stop))).Yields
        (f c ⟨c.nextId, span c⟩) (Cursor.facing { c with nextId := c.nextId + 1 } rest stop) := by
    rw [hspan, hf]
    exact ⟨rfl, rfl⟩
  refine ⟨fun c => ?_, ?_, ?_⟩
  · exact ⟨[], _, _, fun rest stop _ => hyields c rest stop, fun _ _ h => hK _ _ h⟩
  · exact fun c a _ _ kind h => hK a kind h
  · intro c _
    exact .of_stay (n := { c with nextId := c.nextId + 1 }) rfl rfl rfl fun rest stop _ =>
      hyields c rest stop

/-- Changing what was read changes what may come next accordingly. -/
theorem Prompt.map {f : α → β} {T : β → TokenKind → Prop} (hR : Prompt R S c)
    (h : ∀ a kind, T (f a) kind → S a kind) : Prompt (fun c => (R c).map f) T c :=
  hR.andThen fun a => .done fun _ => h a

theorem Opens.map {f : α → β} {T : β → TokenKind → Prop} {K : TokenKind → Prop} (hR : Opens R S K)
    (h : ∀ a kind, T (f a) kind → S a kind) : Opens (fun c => (R c).map f) T K :=
  hR.andThen fun a => (Onward.done (W := 0) (u := 0) fun _ => h a).opens

theorem Onward.map {f : α → β} {T : β → TokenKind → Prop} {K : TokenKind → Prop}
    (hR : Onward W u R S K) (h : ∀ a kind, T (f a) kind → S a kind) :
    Onward W u (fun c => (R c).map f) T K :=
  hR.andThen fun a => .done fun _ => h a

/-- One of two readers, depending on what is known. -/
theorem Prompt.ite {A B : TokenReader k α} {P : Prop} [Decidable P] (hA : P → Prompt A S c)
    (hB : ¬ P → Prompt B S c) : Prompt (fun c => if P then A c else B c) S c := by
  by_cases h : P
  · simpa only [if_pos h] using hA h
  · simpa only [if_neg h] using hB h

/-- One of two readers, depending on what was read before. -/
theorem Onward.ite {A B : TokenReader k α} {K : Bool → TokenKind → Prop}
    (hA : Onward W u A S (K true)) (hB : Onward W u B S (K false)) (b : Bool) :
    Onward W u (fun c => if b then A c else B c) S (K b) := by
  cases b
  · exact hB
  · exact hA

end

end

/-! ### Readers that choose by the token at the cursor -/

section

variable {α : Type} {j k W u : Nat} {c : Cursor} {S : α → TokenKind → Prop} {K : TokenKind → Prop}

theorem Prompt.of_eq {R R' : TokenReader (j + 1) α}
    (h : ∀ c', c'.current = c.current → R c' = R' c') (hR : Prompt R' S c) : Prompt R S c :=
  .branch (fun c' hc => h c' hc ▸ ⟨rfl, rfl⟩) hR

theorem Onward.of_moves {R : TokenReader (j + 1) α} (h : Opens R S K)
    (hR : ∀ c, c.weight + u ≤ W → Prompt R S c) : Onward W u R S K := by
  refine ⟨h, fun c a ha hle => ?_, hR⟩
  have := (R c).progress a ha
  omega

variable {R : TokenReader k α} {p : TokenKind → Prop} {A : TokenReader (j + 1) α} {a : α}

/-- A reader that may take nothing, where what may come after it may come after the one before. -/
theorem Onward.of_after (h : Opens R S K) (hK : ∀ a kind, S a kind → K kind)
    (hR : ∀ c, c.weight + u ≤ W → Prompt R S c) : Onward W u R S K :=
  ⟨h, fun _ a _ _ => hK a, hR⟩

/-- Something that may be left out, but then what it begins with may not come next. -/
theorem Prompt.optional (hyes : ∀ c, p c.kind → Step.Same (R c) (A c))
    (hno : ∀ c, ¬ p c.kind → (R c).Yields a c) (hA : p c.kind → Prompt A S c)
    (hS : ∀ kind, S a kind → ¬ p kind) : Prompt R S c := by
  by_cases hp : p c.kind
  · exact .branch (fun c' hc => hyes c' ((Cursor.kind_eq_of_current hc).symm ▸ hp)) (hA hp)
  · refine .of_stay (n := c) rfl rfl rfl fun rest stop hq => hno _ ?_
    rcases hq with hq | hq
    · rwa [Cursor.kind_eq_of_current hq]
    · exact hS _ hq

/-- A reader that takes an interpolated string, and gives what that token decides. Nothing is said of
an error: it may be in a hole, which is a text of its own. -/
theorem Prompt.of_interpolated (hkind : c.kind = .interpolated) (hfile : (R c).next.file = c.file)
    (h : ∀ rest stop, Step.Faces rest stop (R c) (R (c.facing (c.current :: rest) stop))) :
    Prompt R S c := by
  have hrest : c.rest = c.current :: c.advance.rest := by
    unfold Cursor.kind Cursor.current at hkind
    unfold Cursor.current Cursor.advance
    cases hr : c.rest with
    | nil =>
      rw [hr] at hkind
      cases hkind
    | cons t r => rfl
  have hself : c.facing (c.current :: c.advance.rest) c.stop = c := by rw [← hrest]; rfl
  refine ⟨fun a ha => ?_, fun hp => absurd hkind hp.kind_ne⟩
  have hnext := (h c.advance.rest c.stop).next
  rw [hself] at hnext
  refine ⟨[c.current], ?_, hfile, ?_, fun rest stop _ => ?_⟩
  · rw [hnext]
    exact hrest
  · rw [hnext]
    rfl
  · exact ⟨(h rest stop).outcome.trans ha, (h rest stop).next⟩

/-- If one of the things that can be read can begin, then so can the choice. -/
theorem Opens.of_branch {R' : TokenReader j α} (h : ∀ c, p c.kind → Step.Same (R c) (R' c))
    (hR : Opens R' S fun kind => p kind ∧ K kind) : Opens R S K := by
  intro c
  obtain ⟨ts, a, n, hpass, hkind⟩ := hR c
  refine ⟨ts, a, n, fun rest stop hq => ?_, fun rest stop hq => (hkind rest stop hq).2⟩
  exact (h _ (hkind rest stop hq).1).yields.2 (hpass rest stop hq)

theorem Opens.optional (hno : ∀ c, ¬ p c.kind → (R c).Yields a c) (hS : ∀ kind, S a kind → ¬ p kind)
    (hK : ∀ kind, S a kind → K kind) : Opens R S K :=
  fun c => ⟨[], a, c, fun _ _ h => hno _ (hS _ h), fun _ _ h => hK _ h⟩

theorem Onward.optional (hyes : ∀ c, p c.kind → Step.Same (R c) (A c))
    (hno : ∀ c, ¬ p c.kind → (R c).Yields a c)
    (hA : ∀ c, c.weight + u ≤ W → p c.kind → Prompt A S c) (hS : ∀ kind, S a kind → ¬ p kind)
    (hK : ∀ kind, S a kind → K kind) : Onward W u R S K := by
  refine ⟨.optional hno hS hK, fun c b hb hle kind hkind => ?_, fun c hc => ?_⟩
  · by_cases hp : p c.kind
    · obtain ⟨ho, hn⟩ := hyes c hp
      have := (A c).progress b (ho.symm.trans hb)
      rw [hn] at hle
      omega
    · cases (hno c hp).1.symm.trans hb
      exact hK kind hkind
  · exact .optional hyes hno (hA c hc) hS

end

/-! ### Tokens of a given kind -/

/-- The error is at the token at the cursor and depends on this token alone. -/
structure AtToken (d : Cursor → Diagnostic) : Prop where
  span : ∀ c, (d c).span = c.current.span
  congr : ∀ c c', c.current = c'.current → d c = d c'

theorem atToken_unexpected : AtToken Cursor.unexpected :=
  ⟨fun _ => rfl, fun c c' h => by rw [Cursor.unexpected, Cursor.unexpected, h]⟩

theorem atToken_expected (message : String) : AtToken (Cursor.expected · message) :=
  ⟨fun _ => rfl, fun c c' h => by rw [Cursor.expected, Cursor.expected, h]⟩

/-- A token of that kind, as it is written. It stands nowhere. -/
def Token.sample (kind : TokenKind) : Token :=
  ⟨kind, if kind = .identifier then "x" else kind.spelling, .null⟩

section

variable {α : Type} {k W u : Nat} {c : Cursor} {kind : TokenKind} {K : TokenKind → Prop}
  {d : Cursor → Diagnostic}

theorem Prompt.fail {S : α → TokenKind → Prop} {next : Cursor → Cursor} (hd : AtToken d) :
    Prompt (fun c => (.fail (d c) (next c) : Step k c α)) S c :=
  .of_fail (hd.span c) fun c' h => congrArg Except.error (hd.congr c' c h)

theorem Cursor.expectOr_yields (h : c.kind = kind) (hkind : kind ≠ .eof) (e : Diagnostic) :
    (c.expectOr kind e).Yields c.current c.advance := by
  rw [expectOr, dif_pos ⟨h, hkind⟩]
  exact ⟨rfl, rfl⟩

theorem Cursor.expect_eq_take (h : c.kind = kind) (hkind : kind ≠ .eof) :
    c.expect kind = c.take (h ▸ hkind) :=
  dif_pos ⟨h, hkind⟩

theorem Prompt.expectOr (hd : AtToken d) (hkind : kind ≠ .eof := by decide) :
    Prompt (fun c => c.expectOr kind (d c)) (fun _ _ => True) c := by
  by_cases h : c.kind = kind
  · refine .of_step (a := c.current) (h ▸ hkind) fun c' hc' => ?_
    rw [← hc']
    exact Cursor.expectOr_yields ((Cursor.kind_eq_of_current hc').trans h) hkind _
  · refine .of_fail (hd.span c) fun c' hc' => ?_
    have hne : ¬ (c'.kind = kind ∧ kind ≠ .eof) :=
      fun hc => h ((Cursor.kind_eq_of_current hc').symm.trans hc.1)
    rw [Cursor.expectOr, dif_neg hne, ← hd.congr c' c hc']
    rfl

theorem Onward.expectOr (hd : AtToken d) (hK : K kind) (hkind : kind ≠ .eof := by decide) :
    Onward W u (fun c => c.expectOr kind (d c)) (fun _ _ => True) K := by
  refine ⟨fun c => ?_, fun c t ht hle => ?_, fun c _ => .expectOr hd hkind⟩
  · refine ⟨[.sample kind], .sample kind, { c with lastStop := 0 }, fun rest stop _ => ?_, ?_⟩
    · exact Cursor.expectOr_yields (c := c.facing (.sample kind :: rest) stop) rfl hkind _
    · exact fun _ _ _ => hK
  · have := (c.expectOr kind (d c)).progress t ht
    omega

theorem Prompt.expect (hkind : kind ≠ .eof := by decide) :
    Prompt (fun c => c.expect kind) (fun _ _ => True) c :=
  .expectOr atToken_unexpected hkind

theorem Onward.expect (hK : K kind) (hkind : kind ≠ .eof := by decide) :
    Onward W u (fun c => c.expect kind) (fun _ _ => True) K :=
  .expectOr atToken_unexpected hK hkind

theorem Onward.expectName (message : String) (hK : K .identifier) :
    Onward W u (fun c => c.expectName message) (fun _ _ => True) K :=
  .expectOr (atToken_expected message) hK

theorem Cursor.expectKind_same (hkind : kind ≠ .eof) (c : Cursor) :
    Step.Same (c.expectKind kind c.unexpected) (c.expect kind) := by
  rw [expectKind, expect, expectOr]
  by_cases h : c.kind = kind
  · rw [if_pos h, dif_pos ⟨h, hkind⟩]
    exact ⟨rfl, rfl⟩
  · rw [if_neg h, dif_neg fun hc => h hc.1]
    exact ⟨rfl, rfl⟩

theorem Onward.expectKind (hkind : kind ≠ .eof) (hK : K kind) :
    Onward W u (fun c => c.expectKind kind c.unexpected) (fun _ _ => True) K :=
  .congr (Cursor.expectKind_same hkind) (.expect hK hkind)

/-- A mark may be left out, but then it may not come next. -/
theorem Onward.accept (hkind : kind ≠ .eof := by decide) :
    Onward W u (fun c => c.accept kind) (fun b next => b = false → next ≠ kind ∧ K next) K := by
  have hyes {c : Cursor} (h : c.kind = kind) : (c.accept kind).Yields true c.advance := by
    rw [Cursor.accept, if_pos h]
    exact ⟨rfl, rfl⟩
  have hno {c : Cursor} (h : c.kind ≠ kind) : (c.accept kind).Yields false c := by
    rw [Cursor.accept, if_neg h]
    exact ⟨rfl, rfl⟩
  refine ⟨fun c => ⟨[], false, c, fun rest stop h => hno (h rfl).1, ?_⟩, fun c b hb hle => ?_, ?_⟩
  · exact fun rest stop h => (h rfl).2
  · by_cases h : c.kind = kind
    · have := Cursor.weight_advance_lt (c := c) (h ▸ hkind)
      rw [(hyes h).2] at hle
      omega
    · cases (hno h).1.symm.trans hb
      exact fun next hnext => (hnext rfl).2
  · intro c _
    by_cases h : c.kind = kind
    · refine .of_step (h ▸ hkind) fun c' hc' => hyes ((Cursor.kind_eq_of_current hc').trans h)
    · refine .of_stay (n := c) rfl rfl rfl fun rest stop hc => hno ?_
      rcases hc with hc | hc
      · exact fun hkind => h ((Cursor.kind_eq_of_current hc).symm.trans hkind)
      · exact (hc rfl).1

/-- A row that ends with a mark can be ended at once. -/
theorem Opens.closing {R : TokenReader k α} {S : α → TokenKind → Prop} {a : α}
    (h : ∀ c, c.kind = kind → Step.Same (R c) ((c.expect kind).map fun _ => a)) (hK : K kind)
    (hkind : kind ≠ .eof := by decide) : Opens R S K := by
  refine fun c => ⟨[.sample kind], a, { c with lastStop := 0 }, fun rest stop _ => ?_, ?_⟩
  · refine (h (c.facing (.sample kind :: rest) stop) rfl).yields.2 ?_
    have hyields := Cursor.expectOr_yields (c := c.facing (.sample kind :: rest) stop) rfl hkind
    exact Step.andThen_yields (hyields _) fun _ => ⟨rfl, rfl⟩
  · exact fun _ _ _ => hK

theorem Prompt.closing {R : TokenReader k α} {S : α → TokenKind → Prop} {a : α}
    (h : ∀ c, c.kind = kind → Step.Same (R c) ((c.expect kind).map fun _ => a))
    (hR : c.kind ≠ kind → Prompt R S c) (hkind : kind ≠ .eof := by decide) : Prompt R S c := by
  by_cases hc : c.kind = kind
  · refine .branch (fun c' hc' => h c' ((Cursor.kind_eq_of_current hc').trans hc)) ?_
    exact (Prompt.expect hkind).map fun _ _ _ => trivial
  · exact hR hc

end

end MgLang
