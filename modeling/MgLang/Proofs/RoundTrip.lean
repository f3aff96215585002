import MgLang.Proofs.ReadStmt
/-!
# Printing undoes reading

`readItems_print` is the round trip for whole source texts: declarations that were read from any row
of tokens, and that have no interpolated string in them, are read again from their printed form, up
to the numbers of expressions and the places of everything.
-/

namespace MgLang

open Step (Reads reads_map)
open Cursor (reads_fixed reads_name reads_accept reads_decline kind_of_shows)

variable {c : Cursor} {ls : List Lexeme}

/-! ### Imports -/

theorem joinWith_cons (sep : Char) (s : List Char) (ss : List (List Char)) :
    joinWith sep (s :: ss) = s ++ ss.flatMap (sep :: ·) := by
  induction ss generalizing s with
  | nil => simp [joinWith]
  | cons t ss ih => rw [joinWith, ih, List.flatMap_cons, List.cons_append]; simp

theorem readSegments_print {segments : List (List Char)} {path : String}
    (hc : c.shows = (segments.flatMap fun t => [.fixed .dot, .name (.ofList t)]) ++ ls)
    (hls : headKind ls ≠ .dot) :
    (readSegments c path).Reads ls (·.toList = path.toList ++ segments.flatMap ('.' :: ·)) := by
  induction segments generalizing c path with
  | nil =>
    have hck : c.kind ≠ .dot := kind_of_shows hc ▸ hls
    rw [readSegments, if_neg hck]
    exact .done hc (by simp)
  | cons s segments ih =>
    have hck : c.kind = .dot := kind_of_shows hc
    rw [readSegments, if_pos hck]
    refine Reads.weaken (reads_fixed hc fun _ c' _ hc => reads_name hc fun t c' _ hc ht => ?_)
    refine (ih hc).mono fun p hp => ?_
    rw [hp, ht]
    simp

theorem readUsing_print (u : Using) (hc : c.shows = u.print ++ ls) :
    (readUsing c).Reads ls (·.bare = u.bare) := by
  have hjoin := joinWith_splitOn '.' u.path.toList
  rw [Using.print, List.append_assoc] at hc
  cases hs : splitOn '.' u.path.toList with
  | nil => exact absurd hs (splitOn_ne_nil _ _)
  | cons s segments =>
    rw [hs] at hc hjoin
    rw [joinWith_cons] at hjoin
    unfold readUsing
    refine reads_fixed hc fun token c' _ hc => reads_name hc fun first c' _ hc hfirst => ?_
    refine (readSegments_print hc (headKind_fixed_ne _)).andThen fun path c' _ hc hpath => ?_
    refine reads_fixed hc fun _ _ _ hc => .done hc ?_
    rw [hfirst, String.toList_ofList, hjoin] at hpath
    rw [Using.bare, String.toList_injective hpath]
    rfl

/-! ### Functions and fields -/

theorem readFunction_print {f : FunctionDecl} (h : f.Writable) (start : Nat)
    (hc : c.shows = .fixed .kwFn :: .name f.name :: printSignature f.params f.ret ++
      (f.body.print ++ ls)) :
    (readFunction c start f.isPublic f.isStatic).Reads ls (·.bare = f.bare) := by
  simp only [printSignature, List.cons_append, List.append_assoc] at hc
  refine reads_fixed hc fun _ c' _ hc => reads_name hc fun t c' _ hc ht => ?_
  refine (readParams_print h.1 hc).andThen fun ps c' _ hc hps => ?_
  refine (readReturnTy_print h.2.1 hc (endsTy_block _ _)).andThen fun r c' _ hc hr => ?_
  refine (readBlock_print f.body h.2.2 hc).andThen fun b c' _ hc hb => .done hc ?_
  simp only [FunctionDecl.bare, ht, hps, hr, hb]

theorem readField_print {f : FieldDecl} (h : f.Writable) (start : Nat)
    (hc : c.shows = .name f.name :: .fixed .colon :: f.ty.print ++
      (printInitial f.initial ++ .fixed .semicolon :: ls)) :
    (readField c start f.isPublic f.isStatic).Reads ls (·.bare = f.bare) := by
  refine reads_name hc fun t c' _ hc ht => reads_fixed hc fun _ c' _ hc => ?_
  obtain ⟨name, ty, initial, isPublic, isStatic, span⟩ := f
  cases initial with
  | none =>
    refine (readTy_print ty h.1 hc (endsTy_fixed _)).andThen fun ty' c' _ hc hty => ?_
    refine reads_decline hc (headKind_fixed_ne _) fun c' _ hc => ?_
    refine Reads.andThen (P := (· = none)) (.done hc rfl) fun o c' _ hc ho => ?_
    refine reads_fixed hc fun _ _ _ hc => .done hc ?_
    simp only [FieldDecl.bare, ht, hty, ho]
  | some value =>
    refine (readTy_print ty h.1 hc (endsTy_fixed _)).andThen fun ty' c' _ hc hty => ?_
    refine reads_accept hc fun c' _ hc => ?_
    refine Reads.andThen ((value.reads_print (h.2 value rfl)).complete hc).present ?_
    rintro _ c' _ hc ⟨e, rfl, he⟩
    refine reads_fixed hc fun _ _ _ hc => .done hc ?_
    simp only [FieldDecl.bare, Option.map_some, ht, hty, he]

/-! ### Classes -/

namespace Member

/-- The member as it is written. -/
def print : Member → List Lexeme
  | field f => f.print
  | method m => m.print

/-- The member without its places. -/
def bare : Member → Member
  | field f => field f.bare
  | method m => method m.bare

/-- The member can be written. -/
def Writable : Member → Prop
  | field f => f.Writable
  | method m => m.Writable

/-- The member as a field. -/
def field? : Member → Option FieldDecl
  | field f => some f
  | method _ => none

/-- The member as a method. -/
def method? : Member → Option FunctionDecl
  | field _ => none
  | method m => some m

theorem map_bare_filterMap_field? (ms : List Member) :
    (ms.filterMap field?).map FieldDecl.bare = (ms.map bare).filterMap field? := by
  induction ms with
  | nil => rfl
  | cons m ms ih =>
    cases m with
    | field f => exact congrArg (f.bare :: ·) ih
    | method m => exact ih

theorem map_bare_filterMap_method? (ms : List Member) :
    (ms.filterMap method?).map FunctionDecl.bare = (ms.map bare).filterMap method? := by
  induction ms with
  | nil => rfl
  | cons m ms ih =>
    cases m with
    | field f => exact ih
    | method m => exact congrArg (m.bare :: ·) ih

end Member

/-- The members of a class as it is printed: fields, then methods. -/
def ClassDecl.members (d : ClassDecl) : List Member :=
  d.fields.map .field ++ d.methods.map .method

theorem ClassDecl.filterMap_field?_members (d : ClassDecl) :
    d.members.filterMap Member.field? = d.fields := by
  have hfields : (d.fields.map Member.field).filterMap Member.field? = d.fields := by
    rw [List.filterMap_map]
    exact List.filterMap_some
  have hmethods : (d.methods.map Member.method).filterMap Member.field? = [] := by
    rw [List.filterMap_map]
    exact List.filterMap_eq_nil_iff.2 fun _ _ => rfl
  rw [members, List.filterMap_append, hfields, hmethods, List.append_nil]

theorem ClassDecl.filterMap_method?_members (d : ClassDecl) :
    d.members.filterMap Member.method? = d.methods := by
  have hfields : (d.fields.map Member.field).filterMap Member.method? = [] := by
    rw [List.filterMap_map]
    exact List.filterMap_eq_nil_iff.2 fun _ _ => rfl
  have hmethods : (d.methods.map Member.method).filterMap Member.method? = d.methods := by
    rw [List.filterMap_map]
    exact List.filterMap_some
  rw [members, List.filterMap_append, hfields, hmethods, List.nil_append]

theorem readVisibility_print {isPublic : Bool} (hc : c.shows = printVisibility isPublic :: ls) :
    (readVisibility c).Reads ls (· = some isPublic) := by
  cases isPublic with
  | true =>
    have hck : c.kind = .kwPub := kind_of_shows hc
    rw [readVisibility, hck]
    exact Reads.weaken (reads_fixed hc fun _ _ _ hc => .done hc rfl)
  | false =>
    have hck : c.kind = .kwPriv := kind_of_shows hc
    rw [readVisibility, hck]
    exact Reads.weaken (reads_fixed hc fun _ _ _ hc => .done hc rfl)

theorem headKind_visibility {k : TokenKind} (isPublic : Bool) (ls : List Lexeme)
    (hpub : TokenKind.kwPub ≠ k := by decide) (hpriv : TokenKind.kwPriv ≠ k := by decide) :
    headKind (printVisibility isPublic :: ls) ≠ k := by
  cases isPublic with
  | true => exact hpub
  | false => exact hpriv

/-- The marks before a member are read. -/
theorem reads_marks {α : Type} {j : Nat} {isPublic isStatic : Bool} {rest : List Lexeme}
    {P : α → Prop}
    {f : (c' : Cursor) → Option Bool → Bool → (c'' : Cursor) → c''.weight ≤ c'.weight →
      Step j c'' α}
    (hc : c.shows = printMarks isPublic isStatic ++ ls) (hls : headKind ls ≠ .kwStatic)
    (hf : ∀ c' c'' hw, c''.shows = ls → (f c' (some isPublic) isStatic c'' hw).Reads rest P) :
    ((readVisibility c).optThen fun visibility c' _ =>
      (c'.accept .kwStatic).optThen (f c' visibility)).Reads rest P := by
  refine (readVisibility_print hc).optThen fun v c' _ hc hv => ?_
  refine (Cursor.accept_reads isStatic hc fun _ => hls).optThen fun s c'' hw hc hs => ?_
  rw [hv, hs]
  exact hf c' c'' hw hc

theorem readMembers_print {members : List Member} (h : ∀ m ∈ members, m.Writable)
    (hc : c.shows = members.flatMap Member.print ++ .fixed .closeCurly :: ls) :
    (readMembers c).Reads ls (·.map Member.bare = members.map Member.bare) := by
  induction members generalizing c with
  | nil =>
    have hck : c.kind = .closeCurly := kind_of_shows hc
    rw [readMembers, if_pos hck]
    exact reads_fixed hc fun _ _ _ hc => .done hc rfl
  | cons m members ih =>
    obtain ⟨hm, hms⟩ := List.forall_mem_cons.1 h
    rw [List.flatMap_cons, List.append_assoc] at hc
    cases m with
    | field f =>
      simp only [Member.print, FieldDecl.print, List.append_assoc] at hc
      rw [readMembers, if_neg (kind_of_shows hc ▸ headKind_visibility _ _)]
      refine reads_marks hc (headKind_name_ne _ _) fun _ c' _ hc => ?_
      have hck : c'.kind = .identifier := kind_of_shows hc
      rw [hck]
      have hread := (readField_print hm c.start hc).mono fun _ hf => congrArg Member.field hf
      refine Reads.andThen (P := fun a : Member => a.bare = (Member.field f).bare)
        (reads_map.2 hread) fun a c' _ hc ha => ?_
      refine (ih hms hc).andThen fun as _ _ hc has => .done hc ?_
      rw [List.map_cons, List.map_cons, ha, has]
    | method m =>
      simp only [Member.print, FunctionDecl.print, List.append_assoc] at hc
      rw [readMembers, if_neg (kind_of_shows hc ▸ headKind_visibility _ _)]
      refine reads_marks hc (headKind_fixed_ne _) fun _ c' _ hc => ?_
      have hck : c'.kind = .kwFn := kind_of_shows hc
      rw [hck]
      have hread := (readFunction_print hm c.start hc).mono fun _ hf => congrArg Member.method hf
      refine Reads.andThen (P := fun a : Member => a.bare = (Member.method m).bare)
        (reads_map.2 hread) fun a c' _ hc ha => ?_
      refine (ih hms hc).andThen fun as _ _ hc has => .done hc ?_
      rw [List.map_cons, List.map_cons, ha, has]

theorem ClassDecl.flatMap_print_members (d : ClassDecl) :
    d.members.flatMap Member.print =
      d.fields.flatMap FieldDecl.print ++ d.methods.flatMap FunctionDecl.print := by
  unfold members
  rw [List.flatMap_append, List.flatMap_map, List.flatMap_map]
  rfl

theorem readClass_print {d : ClassDecl} (h : d.Writable) (start : Nat)
    (hc : c.shows = .fixed .kwClass :: .name d.name :: .fixed .openCurly ::
      d.members.flatMap Member.print ++ .fixed .closeCurly :: ls) :
    (readClass c start d.isPublic).Reads ls (·.bare = d.bare) := by
  have hmembers : ∀ m ∈ d.members, m.Writable := by
    intro m hm
    rcases List.mem_append.1 hm with hm | hm
    · obtain ⟨f, hf, rfl⟩ := List.mem_map.1 hm
      exact h.1 f hf
    · obtain ⟨f, hf, rfl⟩ := List.mem_map.1 hm
      exact h.2 f hf
  refine reads_fixed hc fun _ c' _ hc => reads_name hc fun t c' _ hc ht => ?_
  refine reads_fixed hc fun _ c' _ hc => ?_
  refine (readMembers_print hmembers hc).andThen fun ms c' _ hc hms => .done hc ?_
  have hfields : (ms.filterMap Member.field?).map FieldDecl.bare = d.fields.map FieldDecl.bare := by
    rw [Member.map_bare_filterMap_field?, hms, ← Member.map_bare_filterMap_field?,
      d.filterMap_field?_members]
  have hmethods : (ms.filterMap Member.method?).map FunctionDecl.bare =
      d.methods.map FunctionDecl.bare := by
    rw [Member.map_bare_filterMap_method?, hms, ← Member.map_bare_filterMap_method?,
      d.filterMap_method?_members]
  unfold ClassDecl.bare
  rw [ht, ← hfields, ← hmethods]
  rfl

/-! ### Source texts -/

namespace Item

/-- The declaration as it is written. -/
def print : Item → List Lexeme
  | directive u => u.print
  | function f => f.print
  | classDecl c => c.print

/-- The declaration without its places. -/
def bare : Item → Item
  | directive u => directive u.bare
  | function f => function f.bare
  | classDecl c => classDecl c.bare

/-- The declaration can be written. -/
def Writable : Item → Prop
  | directive _ => True
  | function f => f.isStatic = false ∧ f.Writable
  | classDecl c => c.Writable

end Item

theorem readItem_print {item : Item} (h : item.Writable) (hc : c.shows = item.print ++ ls) :
    (readItem c).Reads ls (·.bare = item.bare) := by
  unfold readItem
  cases item with
  | directive u =>
    have hck : c.kind = .kwUsing := kind_of_shows hc
    rw [if_pos hck]
    exact reads_map.2 ((readUsing_print u hc).mono fun _ hu => congrArg Item.directive hu)
  | function f =>
    obtain ⟨hstatic, hf⟩ := h
    simp only [Item.print, FunctionDecl.print, printMarks, hstatic, List.cons_append,
      List.append_assoc] at hc
    rw [if_neg (kind_of_shows hc ▸ headKind_visibility _ _)]
    refine (readVisibility_print hc).optThen fun v c' _ hc hv => ?_
    have hck : c'.kind = .kwFn := kind_of_shows hc
    rw [hv, hck]
    have hread := readFunction_print hf c.start hc
    rw [hstatic] at hread
    exact reads_map.2 (hread.mono fun _ hf => congrArg Item.function hf)
  | classDecl d =>
    simp only [Item.print, ClassDecl.print, List.cons_append, List.append_assoc] at hc
    rw [if_neg (kind_of_shows hc ▸ headKind_visibility _ _)]
    refine (readVisibility_print hc).optThen fun v c' _ hc hv => ?_
    have hck : c'.kind = .kwClass := kind_of_shows hc
    rw [hv, hck]
    rw [← List.append_assoc, ← d.flatMap_print_members] at hc
    exact reads_map.2 ((readClass_print h c.start hc).mono fun _ hd => congrArg Item.classDecl hd)

theorem Item.headKind_print_ne (item : Item) (ls : List Lexeme) :
    headKind (item.print ++ ls) ≠ .eof := by
  cases item with
  | directive u => exact nofun
  | function f => exact headKind_visibility _ _
  | classDecl d => exact headKind_visibility _ _

theorem Declarations.bare_add (d : Declarations) (item : Item) :
    (d.add item).bare = d.bare.add item.bare := by
  cases item <;> simp [Declarations.add, Declarations.bare, Item.bare]

theorem readItems_print_items {items : List Item} (h : ∀ i ∈ items, i.Writable)
    {d : Declarations} (hc : c.shows = items.flatMap Item.print) :
    (readItems c d).Reads [] (·.bare = (items.map Item.bare).foldl .add d.bare) := by
  induction items generalizing c d with
  | nil =>
    have hck : c.kind = .eof := kind_of_shows hc
    rw [readItems, if_pos hck]
    exact .done hc rfl
  | cons item items ih =>
    obtain ⟨hitem, hitems⟩ := List.forall_mem_cons.1 h
    rw [List.flatMap_cons] at hc
    rw [readItems, if_neg (kind_of_shows hc ▸ item.headKind_print_ne _)]
    refine Reads.weaken ((readItem_print hitem hc).andThen fun i c' _ hc hi => ?_)
    refine (ih hitems hc).mono fun d' hd' => ?_
    rw [hd', Declarations.bare_add, hi]
    rfl

/-- The declarations in the order in which they are printed. -/
def Declarations.items (d : Declarations) : List Item :=
  d.usings.map .directive ++ d.functions.map .function ++ d.classes.map .classDecl

theorem Declarations.flatMap_print_items (d : Declarations) :
    d.items.flatMap Item.print = d.print := by
  unfold items print
  simp only [List.flatMap_append, List.flatMap_map]
  rfl

theorem Declarations.foldl_add_directives (us : List Using) (d : Declarations) :
    (us.map Item.directive).foldl .add d = { d with usings := d.usings ++ us } := by
  induction us generalizing d with
  | nil => simp
  | cons u us ih => rw [List.map_cons, List.foldl_cons, ih]; simp [Declarations.add]

theorem Declarations.foldl_add_functions (fs : List FunctionDecl) (d : Declarations) :
    (fs.map Item.function).foldl .add d = { d with functions := d.functions ++ fs } := by
  induction fs generalizing d with
  | nil => simp
  | cons f fs ih => rw [List.map_cons, List.foldl_cons, ih]; simp [Declarations.add]

theorem Declarations.foldl_add_classes (cs : List ClassDecl) (d : Declarations) :
    (cs.map Item.classDecl).foldl .add d = { d with classes := d.classes ++ cs } := by
  induction cs generalizing d with
  | nil => simp
  | cons c cs ih => rw [List.map_cons, List.foldl_cons, ih]; simp [Declarations.add]

theorem Declarations.foldl_add_items (d : Declarations) : d.items.foldl .add {} = d := by
  unfold items
  rw [List.foldl_append, List.foldl_append, foldl_add_directives, foldl_add_functions,
    foldl_add_classes]
  rfl

theorem Declarations.items_bare (d : Declarations) : d.bare.items = d.items.map Item.bare := by
  unfold items bare
  simp only [List.map_append, List.map_map]
  rfl

theorem Declarations.Writable.items {d : Declarations} (h : d.Writable) :
    ∀ i ∈ d.items, i.Writable := by
  unfold Declarations.items
  simp only [List.forall_mem_append, List.forall_mem_map]
  exact ⟨⟨fun _ _ => trivial, h.1⟩, h.2⟩

theorem eq_ok_of_toOption {ε α : Type} {x : Except ε α} {a : α} (h : x.toOption = some a) :
    x = .ok a := by
  cases x with
  | error e => cases h
  | ok b => exact congrArg Except.ok (Option.some.inj h)

/-- What can be written is read back from its printed form. -/
theorem Declarations.Writable.reads_print {d : Declarations} (h : d.Writable)
    (hc : c.shows = d.print) : (readItems c {}).Reads [] (·.bare = d.bare) := by
  rw [← d.flatMap_print_items] at hc
  refine (readItems_print_items h.items hc).mono fun d' hd' => ?_
  rw [hd', ← Declarations.items_bare]
  exact d.bare.foldl_add_items

/-- **Printing undoes reading.** Declarations that were read from some tokens, with no interpolated
string in them, are read again from any tokens that show their printed form. Nothing is left over,
and only the numbers of expressions and the places of things can differ. -/
theorem readItems_print {stream : TokenStream} {nextId : Nat} {d : Declarations}
    (h : (readItems (.ofStream stream nextId) {}).outcome = .ok d) (hplain : Plain d.exprs)
    (stream' : TokenStream) (nextId' : Nat)
    (hprint : stream'.tokens.map Token.lexeme = d.print) :
    ∃ d', (readItems (.ofStream stream' nextId') {}).outcome = .ok d' ∧
      (readItems (.ofStream stream' nextId') {}).next.rest = [] ∧ d'.bare = d.bare := by
  have hd : d.Writable := readItems_writable h hplain
  obtain ⟨d', hok, hnext, hbare⟩ := hd.reads_print (c := .ofStream stream' nextId') hprint
  exact ⟨d', hok, List.map_eq_nil_iff.1 hnext, hbare⟩

/-- Of two pairs of parentheses one is kept, and types and marks are written out. -/
theorem readItems_print_parentheses :
    ∃ s s' d,
      tokenize "m" "fn f(x: int[]) -> int \x7b return (x - (1 - -x) * 2); \x7d".toList = .ok s ∧
      tokenize "n" "pub fn f(x: Array<int>) -> int \x7b return x - (1 - -x) * 2; \x7d".toList =
        .ok s' ∧
      (readItems (.ofStream s 0) {}).outcome = .ok d ∧ Plain d.exprs ∧
      s'.tokens.map Token.lexeme = d.print ∧
      ∃ d', (readItems (.ofStream s' 7) {}).outcome = .ok d' ∧
        (readItems (.ofStream s' 7) {}).next.rest = [] ∧ d'.bare = d.bare := by
  have hrun :
      ((tokenize "m"
        "fn f(x: int[]) -> int \x7b return (x - (1 - -x) * 2); \x7d".toList).toOption.any fun s =>
      (tokenize "n"
        "pub fn f(x: Array<int>) -> int \x7b return x - (1 - -x) * 2; \x7d".toList).toOption.any
          fun s' => (readItems (.ofStream s 0) {}).outcome.toOption.any fun d =>
            d.exprs.all (!·.isInterpolated) && decide (s'.tokens.map Token.lexeme = d.print)) =
        true := by decide +kernel
  obtain ⟨s, hs, hrun⟩ := (Option.any_eq_true _ _).1 hrun
  obtain ⟨s', hs', hrun⟩ := (Option.any_eq_true _ _).1 hrun
  obtain ⟨d, hd, hrun⟩ := (Option.any_eq_true _ _).1 hrun
  obtain ⟨hplain, hprint⟩ := Bool.and_eq_true_iff.1 hrun
  have hd := eq_ok_of_toOption hd
  have hplain : Plain d.exprs := by simpa [Plain] using hplain
  have hprint := of_decide_eq_true hprint
  exact ⟨s, s', d, eq_ok_of_toOption hs, eq_ok_of_toOption hs', hd, hplain, hprint,
    readItems_print hd hplain s' 7 hprint⟩

end MgLang
