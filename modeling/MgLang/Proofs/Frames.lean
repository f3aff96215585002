import MgLang.Proofs.Completion
import MgLang.Proofs.Nesting
import MgLang.Proofs.Outline
/-!
# Scopes after any history

What a stack of scopes says is said here by what has been done with it: a history of openings,
closings, declarations and questions. A scope is known by what has happened since it was opened. It
is open as long as no more scopes have been closed than opened since (`StaysOpen`), and a
declaration is its own if as many have been closed as opened in between (`Balanced`).

The main statement is `ofHistory_tells`: look-up, the names in sight, both depths and the imports
are what the history says (`ScopeStack.Tells`). The names in sight come out the same in whatever
order the entries of the scopes are gone through (`gather_eq_visible`).

The proof goes along the history from its end. The scopes that are open (`openScopes`) hold what was
declared in them (`forall₂_openScopes`), and they are the openings that have not been closed
(`mem_openScopes`).
-/

namespace MgLang

/-- Where something stands in a list that has one more element at its end: there, or before it. -/
theorem append_cons_eq_concat {β : Type} {as bs cs : List β} {b c : β} :
    as ++ b :: bs = cs ++ [c] ↔
      as = cs ∧ b = c ∧ bs = [] ∨ ∃ bs', bs = bs' ++ [c] ∧ as ++ b :: bs' = cs := by
  constructor
  · intro h
    rcases List.eq_nil_or_concat bs with rfl | ⟨bs, c', rfl⟩
    · obtain ⟨rfl, hb⟩ := List.append_inj' h rfl
      exact .inl ⟨rfl, (List.cons.inj hb).1, rfl⟩
    · rw [List.concat_eq_append, ← List.cons_append, ← List.append_assoc] at h
      obtain ⟨rfl, hc⟩ := List.append_inj' h rfl
      obtain ⟨rfl, -⟩ := List.cons.inj hc
      exact .inr ⟨bs, List.concat_eq_append, rfl⟩
  · rintro (⟨rfl, rfl, rfl⟩ | ⟨bs', rfl, rfl⟩)
    · rfl
    · rw [List.append_assoc, List.cons_append]

/-! ### Histories -/

/-- What can be done with scopes. -/
inductive ScopeAction (α : Type) where
  | push
  | pop
  | declare (name : String) (value : α)
  | lookup (name : String)
  | visible

/-- What has been done with scopes, the first action first. -/
abbrev ScopeHistory (α : Type) := List (ScopeAction α)

namespace ScopeAction

variable {α : Type}

/-- The action opens a scope. -/
def isPush : ScopeAction α → Bool
  | push => true
  | _ => false

/-- The action closes a scope. -/
def isPop : ScopeAction α → Bool
  | pop => true
  | _ => false

end ScopeAction

namespace ScopeStack

variable {α : Type}

/-- The scopes after an action. To ask changes nothing. -/
def act (s : ScopeStack α) : ScopeAction α → ScopeStack α
  | .push => s.push
  | .pop => s.pop
  | .declare name value => s.declare name value
  | .lookup _ | .visible => s

/-- New scopes after a history. -/
def ofHistory (imports : List String) (h : ScopeHistory α) : ScopeStack α :=
  h.foldl act (withImports imports)

/-- How many closings in a history find a scope to close. -/
def effectivePops (s : ScopeStack α) : ScopeHistory α → Nat
  | [] => 0
  | a :: h => (if a.isPop ∧ s.depth ≠ 0 then 1 else 0) + effectivePops (s.act a) h

end ScopeStack

namespace ScopeHistory

variable {α : Type}

/-! ### What a history says of a scope -/

/-- How many scopes are opened. -/
def opened (h : ScopeHistory α) : Nat :=
  h.countP (·.isPush)

/-- How many times the innermost scope is to be closed. -/
def closed (h : ScopeHistory α) : Nat :=
  h.countP (·.isPop)

/-- A scope that is open before is open all the time: never are more scopes closed than opened. -/
def StaysOpen (h : ScopeHistory α) : Prop :=
  ∀ front, front <+: h → closed front ≤ opened front

/-- A scope that is innermost before is so afterwards: what is opened inside it is closed. -/
def Balanced (h : ScopeHistory α) : Prop :=
  StaysOpen h ∧ closed h = opened h

/-- Inside a scope, that is the latest value which the scope itself is given for the name. -/
def Latest (inside : ScopeHistory α) (name : String) (value : α) : Prop :=
  ∃ before rest, inside = before ++ .declare name value :: rest ∧ Balanced before ∧
    ∀ between value' rest', rest = between ++ .declare name value' :: rest' → ¬ Balanced between

@[simp] theorem opened_append (h h' : ScopeHistory α) : opened (h ++ h') = opened h + opened h' :=
  List.countP_append

@[simp] theorem closed_append (h h' : ScopeHistory α) : closed (h ++ h') = closed h + closed h' :=
  List.countP_append

theorem staysOpen_nil : StaysOpen ([] : ScopeHistory α) := by
  intro front hfront
  rw [List.prefix_nil.1 hfront]
  exact Nat.le_refl 0

theorem staysOpen_concat {h : ScopeHistory α} {a : ScopeAction α} :
    StaysOpen (h ++ [a]) ↔ StaysOpen h ∧ closed (h ++ [a]) ≤ opened (h ++ [a]) := by
  constructor
  · intro hopen
    exact ⟨fun front hfront => hopen front (hfront.trans (List.prefix_append h [a])),
      hopen _ (List.prefix_refl _)⟩
  · rintro ⟨hopen, hlast⟩ front hfront
    rcases List.prefix_concat_iff.1 hfront with rfl | hfront
    · exact hlast
    · exact hopen front hfront

/-- What is behind a balanced history goes on where that began. -/
theorem balanced_append {h h' : ScopeHistory α} (hb : Balanced h) :
    Balanced (h ++ h') ↔ Balanced h' := by
  obtain ⟨hopen, heq⟩ := hb
  constructor
  · rintro ⟨hopen', heq'⟩
    rw [closed_append, opened_append] at heq'
    refine ⟨fun front hfront => ?_, by omega⟩
    have hle := hopen' (h ++ front) ((List.prefix_append_right_inj h).2 hfront)
    rw [closed_append, opened_append] at hle
    omega
  · rintro ⟨hopen', heq'⟩
    refine ⟨fun front hfront => ?_, by rw [closed_append, opened_append, heq, heq']⟩
    rcases List.prefix_or_prefix_of_prefix hfront (List.prefix_append h h')
      with hshort | ⟨more, rfl⟩
    · exact hopen front hshort
    · have hle := hopen' more ((List.prefix_append_right_inj h).1 hfront)
      rw [closed_append, opened_append]
      omega

/-- A declaration opens and closes nothing. -/
theorem balanced_declare_cons {name : String} {value : α} {h : ScopeHistory α} :
    Balanced (.declare name value :: h) ↔ Balanced h := by
  have hone : Balanced [ScopeAction.declare name value] :=
    ⟨staysOpen_concat (h := []).2 ⟨staysOpen_nil, Nat.le_refl 0⟩, rfl⟩
  exact balanced_append (h := [_]) hone

/-- What the latest value is after one more action. -/
theorem latest_concat {inside : ScopeHistory α} {a : ScopeAction α} {name : String} {value : α} :
    Latest (inside ++ [a]) name value ↔
      a = .declare name value ∧ Balanced inside ∨
        Latest inside name value ∧ ∀ value', a = .declare name value' → ¬ Balanced inside := by
  constructor
  · rintro ⟨before, rest, hinside, hbefore, hrest⟩
    rcases append_cons_eq_concat.1 hinside.symm with ⟨rfl, ha, -⟩ | ⟨rest, rfl, rfl⟩
    · exact .inl ⟨ha.symm, hbefore⟩
    · refine .inr ⟨⟨before, rest, rfl, hbefore, fun between value' rest' he => ?_⟩, ?_⟩
      · exact hrest between value' (rest' ++ [a]) (by simp [he])
      · rintro value' rfl hb
        rw [balanced_append hbefore, balanced_declare_cons] at hb
        exact hrest rest value' [] rfl hb
  · rintro (⟨rfl, hb⟩ | ⟨⟨before, rest, rfl, hbefore, hrest⟩, hlast⟩)
    · exact ⟨inside, [], rfl, hb, fun between value' rest' he => by simp at he⟩
    · refine ⟨before, rest ++ [a], by simp, hbefore, fun between value' rest' he hb => ?_⟩
      rcases append_cons_eq_concat.1 he.symm with ⟨rfl, ha, -⟩ | ⟨rest', -, he⟩
      · refine hlast value' ha.symm ?_
        rw [balanced_append hbefore, balanced_declare_cons]
        exact hb
      · exact hrest between value' rest' he.symm hb

/-! ### The scopes that are open -/

/-- What has happened in each open scope since it was opened, after one more action. -/
def nextScopes (scopes : List (ScopeHistory α)) (a : ScopeAction α) : List (ScopeHistory α) :=
  match a with
  | .push => [] :: scopes.map (· ++ [.push])
  | .pop => scopes.tail.map (· ++ [.pop])
  | a => scopes.map (· ++ [a])

/-- What has happened in each open scope since it was opened, the innermost first. -/
def openScopes (h : ScopeHistory α) : List (ScopeHistory α) :=
  h.foldl nextScopes []

theorem openScopes_concat (h : ScopeHistory α) (a : ScopeAction α) :
    openScopes (h ++ [a]) = nextScopes (openScopes h) a := by
  simp [openScopes]

/-- The first scope has stayed open and has `k` scopes open inside it, the next one has one more,
and so on. -/
inductive Levels : Nat → List (ScopeHistory α) → Prop
  | nil {k : Nat} : Levels k []
  | cons {k : Nat} {inside : ScopeHistory α} {scopes : List (ScopeHistory α)}
    (hopen : StaysOpen inside) (hcount : opened inside = closed inside + k)
    (hscopes : Levels (k + 1) scopes) : Levels k (inside :: scopes)

namespace Levels

variable {k k' : Nat} {inside : ScopeHistory α} {scopes : List (ScopeHistory α)}

theorem staysOpen (h : Levels k scopes) (hmem : inside ∈ scopes) : StaysOpen inside := by
  induction h with
  | nil => cases hmem
  | cons hopen _ _ ih =>
    rcases List.mem_cons.1 hmem with rfl | hmem
    · exact hopen
    · exact ih hmem

/-- Only the innermost scope is where it began. -/
theorem not_balanced (h : Levels (k + 1) scopes) (hmem : inside ∈ scopes) : ¬ Balanced inside := by
  generalize hn : k + 1 = n at h
  induction h generalizing k with
  | nil => cases hmem
  | cons _ hcount _ ih =>
    rcases List.mem_cons.1 hmem with rfl | hmem
    · rintro ⟨-, heq⟩
      omega
    · exact ih hmem rfl

theorem map_concat {a : ScopeAction α} (h : Levels k scopes)
    (hk : k + opened [a] = k' + closed [a]) : Levels k' (scopes.map (· ++ [a])) := by
  induction h generalizing k' with
  | nil => exact .nil
  | @cons k inside scopes hopen hcount _ ih =>
    have hcount' : opened (inside ++ [a]) = closed (inside ++ [a]) + k' := by
      rw [opened_append, closed_append]
      omega
    exact .cons (staysOpen_concat.2 ⟨hopen, by omega⟩) hcount' (ih (by omega))

theorem next (h : Levels 0 scopes) (a : ScopeAction α) : Levels 0 (nextScopes scopes a) := by
  cases a with
  | push => exact .cons staysOpen_nil rfl (h.map_concat rfl)
  | pop =>
    cases h with
    | nil => exact .nil
    | cons _ _ hscopes => exact hscopes.map_concat rfl
  | _ => exact h.map_concat rfl

end Levels

theorem levels_openScopes (h : ScopeHistory α) : Levels 0 (openScopes h) := by
  induction h using List.reverseRecOn with
  | nil => exact .nil
  | append_singleton h a ih =>
    rw [openScopes_concat]
    exact ih.next a

/-- After one more action those scopes are open which were open and stay so, and a new one. -/
theorem mem_nextScopes {scopes : List (ScopeHistory α)} (hlevels : Levels 0 scopes)
    {a : ScopeAction α} {x : ScopeHistory α} :
    x ∈ nextScopes scopes a ↔
      x = [] ∧ a = .push ∨ ∃ inside ∈ scopes, x = inside ++ [a] ∧ StaysOpen (inside ++ [a]) := by
  have hnext := hlevels.next a
  constructor
  · intro hx
    have hopen := hnext.staysOpen hx
    cases a with
    | push =>
      rcases List.mem_cons.1 hx with rfl | hx
      · exact .inl ⟨rfl, rfl⟩
      · obtain ⟨inside, hmem, rfl⟩ := List.mem_map.1 hx
        exact .inr ⟨inside, hmem, rfl, hopen⟩
    | pop =>
      obtain ⟨inside, hmem, rfl⟩ := List.mem_map.1 hx
      exact .inr ⟨inside, List.mem_of_mem_tail hmem, rfl, hopen⟩
    | _ =>
      obtain ⟨inside, hmem, rfl⟩ := List.mem_map.1 hx
      exact .inr ⟨inside, hmem, rfl, hopen⟩
  · rintro (⟨rfl, rfl⟩ | ⟨inside, hmem, rfl, hopen⟩)
    · exact List.mem_cons_self
    · cases a with
      | push => exact List.mem_cons_of_mem _ (List.mem_map_of_mem hmem)
      | pop =>
        cases hlevels with
        | nil => cases hmem
        | cons _ hcount _ =>
          rcases List.mem_cons.1 hmem with rfl | hmem
          · -- The innermost scope does not stay open.
            have hle := (staysOpen_concat.1 hopen).2
            have hone : closed [(.pop : ScopeAction α)] = 1 ∧ opened [(.pop : ScopeAction α)] = 0 :=
              ⟨rfl, rfl⟩
            rw [closed_append, opened_append] at hle
            omega
          · exact List.mem_map_of_mem hmem
      | _ => exact List.mem_map_of_mem hmem

/-- The open scopes are those that were opened and have stayed open. -/
theorem mem_openScopes {h inside : ScopeHistory α} :
    inside ∈ openScopes h ↔ ∃ outside, h = outside ++ .push :: inside ∧ StaysOpen inside := by
  induction h using List.reverseRecOn generalizing inside with
  | nil => simp [openScopes]
  | append_singleton h a ih =>
    rw [openScopes_concat, mem_nextScopes (levels_openScopes h)]
    constructor
    · rintro (⟨rfl, rfl⟩ | ⟨inside, hmem, rfl, hopen⟩)
      · exact ⟨h, rfl, staysOpen_nil⟩
      · obtain ⟨outside, rfl, -⟩ := ih.1 hmem
        exact ⟨outside, by simp, hopen⟩
    · rintro ⟨outside, he, hopen⟩
      rcases append_cons_eq_concat.1 he.symm with ⟨-, ha, rfl⟩ | ⟨inside, rfl, rfl⟩
      · exact .inl ⟨rfl, ha.symm⟩
      · exact .inr ⟨inside, ih.2 ⟨outside, rfl, (staysOpen_concat.1 hopen).1⟩, rfl, hopen⟩

/-- Each open scope was opened inside all that come after it. -/
theorem pairwise_openScopes (h : ScopeHistory α) :
    (openScopes h).Pairwise fun inner outer => ∃ between, outer = between ++ .push :: inner := by
  induction h using List.reverseRecOn with
  | nil => exact .nil
  | append_singleton h a ih =>
    have hmap {scopes : List (ScopeHistory α)}
        (hs : scopes.Pairwise fun inner outer => ∃ between, outer = between ++ .push :: inner) :
        (scopes.map (· ++ [a])).Pairwise
          fun inner outer => ∃ between, outer = between ++ .push :: inner := by
      refine List.pairwise_map.2 (hs.imp ?_)
      rintro inner outer ⟨between, rfl⟩
      exact ⟨between, by simp⟩
    rw [openScopes_concat]
    cases a with
    | push =>
      refine List.pairwise_cons.2 ⟨fun outer houter => ?_, hmap ih⟩
      obtain ⟨inside, -, rfl⟩ := List.mem_map.1 houter
      exact ⟨inside, rfl⟩
    | pop => exact hmap ih.tail
    | _ => exact hmap ih

/-! ### What the open scopes hold -/

/-- A scope gives names the values that it was given for them at last. -/
def Holds (frame : List (String × α)) (inside : ScopeHistory α) : Prop :=
  ∀ name value, frame.lookup name = some value ↔ Latest inside name value

theorem holds_nil : Holds ([] : List (String × α)) [] := by
  intro name value
  constructor
  · rintro ⟨⟩
  · rintro ⟨before, rest, he, -⟩
    simp at he

/-- A scope keeps its values unless it is given another. -/
theorem Holds.concat {frame : List (String × α)} {inside : ScopeHistory α} {a : ScopeAction α}
    (h : Holds frame inside) (ha : ∀ name value, a = .declare name value → ¬ Balanced inside) :
    Holds frame (inside ++ [a]) := by
  intro name value
  rw [h name value, latest_concat]
  constructor
  · exact fun hlatest => .inr ⟨hlatest, ha name⟩
  · rintro (⟨he, hb⟩ | ⟨hlatest, -⟩)
    · exact absurd hb (ha name value he)
    · exact hlatest

/-- A scope that is given a value keeps the others. -/
theorem Holds.declare {frame : List (String × α)} {inside : ScopeHistory α} (h : Holds frame inside)
    (hb : Balanced inside) (name : String) (value : α) :
    Holds ((name, value) :: frame) (inside ++ [.declare name value]) := by
  intro x v
  rw [Keyed.lookup_cons, latest_concat]
  by_cases hx : x = name
  · subst hx
    simp [hb]
  · have hne : name ≠ x := Ne.symm hx
    simp [hx, hne, h x v]

theorem forall₂_concat {frames : List (List (String × α))} {scopes : List (ScopeHistory α)}
    {a : ScopeAction α} (h : List.Forall₂ Holds frames scopes)
    (ha : ∀ inside ∈ scopes, ∀ name value, a = .declare name value → ¬ Balanced inside) :
    List.Forall₂ Holds frames (scopes.map (· ++ [a])) := by
  induction h with
  | nil => exact .nil
  | cons hhead _ ih =>
    obtain ⟨ha, has⟩ := List.forall_mem_cons.1 ha
    exact .cons (hhead.concat ha) (ih has)

/-- An action changes the scopes of a stack as it changes what is known of them. -/
theorem forall₂_act {s : ScopeStack α} {scopes : List (ScopeHistory α)} (hlevels : Levels 0 scopes)
    (h : List.Forall₂ Holds s.frames scopes) (a : ScopeAction α) :
    List.Forall₂ Holds (s.act a).frames (nextScopes scopes a) := by
  generalize hs : s.frames = frames at h
  cases a with
  | push => exact .cons holds_nil (hs ▸ forall₂_concat h (by simp))
  | pop =>
    rw [show (s.act .pop).frames = s.frames.tail from rfl, hs]
    cases h with
    | nil => exact .nil
    | cons _ hframes => exact forall₂_concat hframes (by simp)
  | declare name value =>
    rw [ScopeStack.act, ScopeStack.frames_declare, hs]
    cases h with
    | nil => exact .nil
    | cons hhead hframes =>
      cases hlevels with
      | cons hopen hcount hscopes =>
        refine .cons (hhead.declare ⟨hopen, hcount.symm⟩ name value) ?_
        exact forall₂_concat hframes fun inside hmem _ _ _ => hscopes.not_balanced hmem
  | lookup name => exact hs ▸ forall₂_concat h (by simp)
  | visible => exact hs ▸ forall₂_concat h (by simp)

end ScopeHistory

open ScopeHistory

namespace ScopeStack

variable {α : Type} {imports : List String} {h : ScopeHistory α}

theorem ofHistory_concat (imports : List String) (h : ScopeHistory α) (a : ScopeAction α) :
    ofHistory imports (h ++ [a]) = (ofHistory imports h).act a := by
  simp [ofHistory]

/-- **The scopes of a stack are the open scopes of its history.** -/
theorem forall₂_openScopes (imports : List String) (h : ScopeHistory α) :
    List.Forall₂ Holds (ofHistory imports h).frames (openScopes h) := by
  induction h using List.reverseRecOn with
  | nil => exact .nil
  | append_singleton h a ih =>
    rw [ofHistory_concat, openScopes_concat]
    exact forall₂_act (levels_openScopes h) ih a

/-- A look-up finds the first scope that has the name. -/
theorem findSome?_lookup {frames : List (List (String × α))} {scopes : List (ScopeHistory α)}
    (h : List.Forall₂ Holds frames scopes) {name : String} {value : α} :
    frames.findSome? (·.lookup name) = some value ↔
      ∃ front inside back, scopes = front ++ inside :: back ∧ Latest inside name value ∧
        ∀ inner ∈ front, ∀ value', ¬ Latest inner name value' := by
  induction h with
  | nil => simp
  | @cons frame inside frames scopes hhead _ ih =>
    rw [List.findSome?_cons]
    cases hl : frame.lookup name with
    | some v =>
      have hv := (hhead name v).1 hl
      constructor
      · rintro ⟨⟩
        exact ⟨[], inside, scopes, rfl, hv, List.forall_mem_nil _⟩
      · rintro ⟨front, inside', back, he, hlatest, hfront⟩
        cases front with
        | nil =>
          obtain ⟨rfl, -⟩ := List.cons.inj he
          exact hl.symm.trans ((hhead name value).2 hlatest)
        | cons inner front =>
          obtain ⟨rfl, -⟩ := List.cons.inj he
          exact absurd hv (hfront _ List.mem_cons_self v)
    | none =>
      have hnone (v : α) : ¬ Latest inside name v := by
        intro hv
        cases hl.symm.trans ((hhead name v).2 hv)
      refine ih.trans ⟨?_, ?_⟩
      · rintro ⟨front, inside', back, rfl, hlatest, hfront⟩
        exact ⟨inside :: front, inside', back, rfl, hlatest, List.forall_mem_cons.2 ⟨hnone, hfront⟩⟩
      · rintro ⟨front, inside', back, he, hlatest, hfront⟩
        cases front with
        | nil =>
          obtain ⟨rfl, -⟩ := List.cons.inj he
          exact absurd hlatest (hnone value)
        | cons inner front =>
          obtain ⟨rfl, rfl⟩ := List.cons.inj he
          exact ⟨front, inside', back, rfl, hlatest, (List.forall_mem_cons.1 hfront).2⟩

/-- A look-up finds the latest value in the innermost scope that is still open and has the name. -/
theorem lookup_ofHistory {name : String} {value : α} :
    (ofHistory imports h).lookup name = some value ↔
      ∃ outside inside, h = outside ++ .push :: inside ∧ StaysOpen inside ∧
        Latest inside name value ∧
        ∀ between inner, inside = between ++ .push :: inner → StaysOpen inner →
          ∀ value', ¬ Latest inner name value' := by
  have horder := pairwise_openScopes h
  refine (findSome?_lookup (forall₂_openScopes imports h)).trans ⟨?_, ?_⟩
  · rintro ⟨front, inside, back, he, hlatest, hfront⟩
    have hmem : inside ∈ openScopes h := by simp [he]
    obtain ⟨outside, hhistory, hopen⟩ := mem_openScopes.1 hmem
    refine ⟨outside, inside, hhistory, hopen, hlatest, fun between inner hinner hopen' => ?_⟩
    have hinside : inner ∈ openScopes h :=
      mem_openScopes.2 ⟨outside ++ .push :: between, by simp [hhistory, hinner], hopen'⟩
    have hshorter : inner.length < inside.length := by
      rw [hinner, List.length_append, List.length_cons]
      omega
    rw [he, List.pairwise_append, List.pairwise_cons] at horder
    rw [he, List.mem_append, List.mem_cons] at hinside
    rcases hinside with hinside | rfl | hinside
    · exact hfront inner hinside
    · omega
    · obtain ⟨between', rfl⟩ := horder.2.1.1 inner hinside
      simp only [List.length_append, List.length_cons] at hshorter
      omega
  · rintro ⟨outside, inside, hhistory, hopen, hlatest, hinner⟩
    obtain ⟨front, back, he⟩ := List.append_of_mem (mem_openScopes.2 ⟨outside, hhistory, hopen⟩)
    refine ⟨front, inside, back, he, hlatest, fun inner hmem => ?_⟩
    rw [he, List.pairwise_append] at horder
    obtain ⟨between, hbetween⟩ := horder.2.2 inner hmem inside List.mem_cons_self
    obtain ⟨-, -, hopen'⟩ := mem_openScopes.1 (he ▸ List.mem_append_left _ hmem : inner ∈ _)
    exact hinner between inner hbetween hopen'

/-! ### The names in sight, in any order -/

/-- The entries of a scope, each name once, in some order. -/
structure Lists (frame listed : List (String × α)) : Prop where
  nodup : (listed.map (·.1)).Nodup
  mem_iff : ∀ name value, (name, value) ∈ listed ↔ frame.lookup name = some value

/-- Notes an entry unless one of its name has been noted. -/
def note (noted : List (String × α)) (e : String × α) : List (String × α) :=
  if (noted.lookup e.1).isSome then noted else e :: noted

/-- The first entry of each name. -/
def gather (listed : List (List (String × α))) : List (String × α) :=
  listed.flatten.foldl note []

theorem mem_iff_lookup {es : List (String × α)} (hnodup : (es.map (·.1)).Nodup) {name : String}
    {value : α} : (name, value) ∈ es ↔ es.lookup name = some value := by
  induction es with
  | nil => simp
  | cons e es ih =>
    rw [List.map_cons, List.nodup_cons] at hnodup
    rw [Keyed.lookup_cons, List.mem_cons, ih hnodup.2]
    by_cases hname : name = e.1
    · subst hname
      have hnone : es.lookup e.1 ≠ some value := fun h =>
        hnodup.1 (List.mem_map_of_mem (f := (·.1)) ((ih hnodup.2).2 h))
      simp [hnone, Prod.ext_iff, eq_comm]
    · simp [hname, Prod.ext_iff]

theorem lookup_isSome {es : List (String × α)} {name : String} :
    (es.lookup name).isSome ↔ name ∈ es.map (·.1) := by
  induction es with
  | nil => simp
  | cons e es ih =>
    rw [Keyed.lookup_cons]
    by_cases hname : name = e.1 <;> simp [hname, ih]

theorem lookup_foldl_note (es noted : List (String × α)) (name : String) :
    (es.foldl note noted).lookup name = (noted.lookup name).or (es.lookup name) := by
  induction es generalizing noted with
  | nil => simp
  | cons e es ih =>
    rw [List.foldl_cons, ih, note, Keyed.lookup_cons]
    split
    · next hnoted =>
      obtain ⟨v, hv⟩ := Option.isSome_iff_exists.1 hnoted
      by_cases hname : name = e.1 <;> simp [hname, hv]
    · next hnoted =>
      have hnone : noted.lookup e.1 = none := Option.not_isSome_iff_eq_none.1 hnoted
      by_cases hname : name = e.1 <;> simp [Keyed.lookup_cons, hname, hnone]

theorem nodup_foldl_note (es : List (String × α)) {noted : List (String × α)}
    (h : (noted.map (·.1)).Nodup) : ((es.foldl note noted).map (·.1)).Nodup := by
  induction es generalizing noted with
  | nil => exact h
  | cons e es ih =>
    refine ih ?_
    unfold note
    split
    · exact h
    · next hnoted => exact List.nodup_cons.2 ⟨fun hmem => hnoted (lookup_isSome.2 hmem), h⟩

theorem nodup_gather (listed : List (List (String × α))) : ((gather listed).map (·.1)).Nodup :=
  nodup_foldl_note _ List.Pairwise.nil

theorem Lists.lookup {frame listed : List (String × α)} (h : Lists frame listed) (name : String) :
    listed.lookup name = frame.lookup name :=
  Option.ext fun value => (mem_iff_lookup h.nodup).symm.trans (h.mem_iff name value)

/-- Every scope can be listed: an earlier entry hides the later ones of its name. -/
theorem lists_gather (frame : List (String × α)) : Lists frame (gather [frame]) := by
  refine ⟨nodup_gather [frame], fun name value => ?_⟩
  rw [mem_iff_lookup (nodup_gather [frame]), gather, lookup_foldl_note, List.lookup_nil,
    Option.none_or, List.flatten_singleton]

theorem lookup_flatten {frames listed : List (List (String × α))}
    (h : List.Forall₂ Lists frames listed) (name : String) :
    listed.flatten.lookup name = frames.flatten.lookup name := by
  induction h with
  | nil => rfl
  | cons hhead _ ih =>
    rw [List.flatten_cons, List.flatten_cons, List.lookup_append, List.lookup_append, ih,
      hhead.lookup]

/-- Sorting makes a table of entries that have different names. -/
theorem sorted_mergeSort {es : List (String × α)} (h : (es.map (·.1)).Nodup) :
    (es.mergeSort fun a b => a.1 ≤ b.1).Pairwise fun a b => a.1 < b.1 := by
  have hle : (es.mergeSort fun a b => a.1 ≤ b.1).Pairwise fun a b => decide (a.1 ≤ b.1) := by
    refine List.pairwise_mergeSort (fun a b c hab hbc => ?_) (fun a b => ?_) es
    · simp only [decide_eq_true_eq] at hab hbc ⊢
      exact String.le_trans hab hbc
    · simpa using String.le_total a.1 b.1
  have hne := (List.mergeSort_perm es fun a b => a.1 ≤ b.1).map (·.1) |>.nodup_iff.2 h
  refine (hle.and (List.pairwise_map.1 hne)).imp ?_
  rintro a b ⟨hab, hab'⟩
  exact Std.lt_of_le_of_ne (by simpa using hab) hab'

/-- **The names in sight do not depend on an order.** The entries of each scope come in any order,
and so do the first entries of all names before they are sorted. -/
theorem gather_eq_visible {s : ScopeStack α} {listed : List (List (String × α))}
    {out : List (String × α)} (hlisted : List.Forall₂ Lists s.frames listed)
    (hout : out.Perm (gather listed)) :
    out.mergeSort (fun a b => a.1 ≤ b.1) = s.visible.entries := by
  have hnodup := nodup_gather listed
  have hnames : (out.map (·.1)).Nodup := (hout.map _).nodup_iff.2 hnodup
  have hsorted := sorted_mergeSort hnames
  have hperm := (List.mergeSort_perm out fun a b => decide (a.1 ≤ b.1)).trans hout
  let table : Keyed α := ⟨_, hsorted⟩
  suffices h : table = s.visible from congrArg Keyed.entries h
  refine Keyed.ext_get? fun name => Option.ext fun value => ?_
  calc table.get? name = some value
      ↔ (name, value) ∈ table.entries := ⟨Keyed.mem_of_get?, Keyed.get?_of_mem⟩
    _ ↔ (name, value) ∈ gather listed := hperm.mem_iff
    _ ↔ (gather listed).lookup name = some value := mem_iff_lookup hnodup
    _ ↔ s.lookup name = some value := by
      rw [gather, lookup_foldl_note, List.lookup_nil, Option.none_or, lookup_flatten hlisted,
        lookup_eq_flatten]
    _ ↔ s.visible.get? name = some value := by rw [get?_visible]

/-! ### Depths and imports -/

theorem depth_act (s : ScopeStack α) (a : ScopeAction α) :
    (s.act a).depth + (if a.isPop ∧ s.depth ≠ 0 then 1 else 0) = s.depth + opened [a] := by
  cases a with
  | push => rfl
  | pop =>
    by_cases hd : s.depth = 0
    · simp [act, opened, ScopeAction.isPop, ScopeAction.isPush, hd]
    · simp [act, opened, ScopeAction.isPop, ScopeAction.isPush, hd]
      omega
  | declare name value => simp [act, opened, ScopeAction.isPop, ScopeAction.isPush]
  | _ => rfl

theorem depth_foldl_act (s : ScopeStack α) (h : ScopeHistory α) :
    (h.foldl act s).depth + s.effectivePops h = s.depth + opened h := by
  induction h generalizing s with
  | nil => rfl
  | cons a h ih =>
    have hfirst := depth_act s a
    have hrest := ih (s.act a)
    rw [List.foldl_cons, effectivePops, ← List.singleton_append, opened_append]
    omega

theorem imports_act (s : ScopeStack α) (a : ScopeAction α) : (s.act a).imports = s.imports := by
  cases a with
  | declare name value => exact imports_declare s name value
  | _ => rfl

theorem imports_ofHistory (imports : List String) (h : ScopeHistory α) :
    (ofHistory imports h).imports = imports := by
  induction h using List.reverseRecOn with
  | nil => rfl
  | append_singleton h a ih => rw [ofHistory_concat, imports_act, ih]

theorem maxDepth_act {s : ScopeStack α} (hs : s.depth ≤ s.maxDepth) (a : ScopeAction α) :
    (s.act a).maxDepth = max s.maxDepth (s.act a).depth := by
  cases a with
  | push => rfl
  | pop =>
    have hpop : (s.act .pop).depth = s.depth - 1 := depth_pop s
    rw [hpop, show (s.act .pop).maxDepth = s.maxDepth from rfl]
    omega
  | declare name value =>
    rw [act, maxDepth_declare, depth_declare]
    omega
  | _ => exact (Nat.max_eq_left hs).symm

/-- The greatest depth is the greatest that there has been. -/
theorem maxDepth_ofHistory (imports : List String) (h : ScopeHistory α) :
    (∀ front, front <+: h → (ofHistory imports front).depth ≤ (ofHistory imports h).maxDepth) ∧
      ∃ front, front <+: h ∧ (ofHistory imports front).depth = (ofHistory imports h).maxDepth := by
  induction h using List.reverseRecOn with
  | nil =>
    refine ⟨fun front hfront => ?_, [], List.prefix_refl _, rfl⟩
    rw [List.prefix_nil.1 hfront]
    exact Nat.le_refl 0
  | append_singleton h a ih =>
    obtain ⟨hall, front, hfront, heq⟩ := ih
    have hmax := maxDepth_act (hall h (List.prefix_refl h)) a
    rw [← ofHistory_concat] at hmax
    refine ⟨fun front' hfront' => ?_, ?_⟩
    · rcases List.prefix_concat_iff.1 hfront' with rfl | hfront'
      · omega
      · have hle := hall front' hfront'
        omega
    · rcases Nat.le_total (ofHistory imports (h ++ [a])).depth (ofHistory imports h).maxDepth
        with hle | hle
      · exact ⟨front, hfront.trans (List.prefix_append h [a]), by omega⟩
      · exact ⟨h ++ [a], List.prefix_refl _, by omega⟩

/-- Without an open scope, nothing can be closed or declared. -/
theorem idle_of_depth_eq_zero {s : ScopeStack α} (h : s.depth = 0) :
    s.pop = s ∧ ∀ name value, s.declare name value = s := by
  obtain ⟨frames, imports, maxDepth⟩ := s
  obtain rfl : frames = [] := List.length_eq_zero_iff.1 h
  exact ⟨rfl, fun _ _ => rfl⟩

/-! ### What a stack says of its history -/

/-- A stack says of its history what it should. -/
structure Tells (imports : List String) (h : ScopeHistory α) (s : ScopeStack α) : Prop where
  /-- A look-up finds the latest value in the innermost scope that is still open and has the
  name. -/
  lookup : ∀ name value, s.lookup name = some value ↔
    ∃ outside inside, h = outside ++ .push :: inside ∧ StaysOpen inside ∧
      Latest inside name value ∧
      ∀ between inner, inside = between ++ .push :: inner → StaysOpen inner →
        ∀ value', ¬ Latest inner name value'
  /-- The names in sight are strictly ascending. -/
  sorted : s.visible.entries.Pairwise fun a b => a.1 < b.1
  /-- What is in sight is what look-ups find. -/
  visible : ∀ name value, (name, value) ∈ s.visible.entries ↔ s.lookup name = some value
  /-- It is the same in whatever order the scopes list their entries, and in whatever order the
  entries come that are sorted at the end. -/
  gathered : ∀ listed out, List.Forall₂ Lists s.frames listed → List.Perm out (gather listed) →
    List.mergeSort out (fun a b => a.1 ≤ b.1) = s.visible.entries
  /-- The scopes that are open have been opened and not closed. -/
  depth : s.depth + effectivePops (withImports imports : ScopeStack α) h = opened h
  /-- Without an open scope, nothing can be closed or declared. -/
  idle : s.depth = 0 → s.pop = s ∧ ∀ name value, s.declare name value = s
  /-- The greatest depth is the greatest that there has been. -/
  maxDepth : (∀ front, front <+: h → (ofHistory imports front).depth ≤ s.maxDepth) ∧
    ∃ front, front <+: h ∧ (ofHistory imports front).depth = s.maxDepth
  imports : s.imports = imports

/-- **After any history, a stack says what the history says**: what a name stands for, which names
are in sight, how deep it is, how deep it has been, and which imports hold. -/
theorem ofHistory_tells (imports : List String) (h : ScopeHistory α) :
    (ofHistory imports h).Tells imports h where
  lookup _ _ := lookup_ofHistory
  sorted := (ofHistory imports h).visible.sorted
  visible name value := by
    rw [← get?_visible]
    exact ⟨Keyed.get?_of_mem, Keyed.mem_of_get?⟩
  gathered _ _ := gather_eq_visible
  depth := by
    have hdepth := depth_foldl_act (withImports imports) h
    rwa [show (withImports imports : ScopeStack α).depth = 0 from rfl, Nat.zero_add] at hdepth
  idle := idle_of_depth_eq_zero
  maxDepth := maxDepth_ofHistory imports h
  imports := imports_ofHistory imports h

end ScopeStack

end MgLang
