import MgLang.Proofs.Places
import MgLang.Proofs.RoundTrip
/-!
# Regions of a source text

A declaration takes up a region of its source text, with the regions of its parts inside it:
`Region` is the tree without anything but its places. In a well-formed tree every region has
something in it and the regions inside it, which are in order and do not overlap (`Region.Nested`).

Regions between two bytes are said to stand in a `Row`, which is built up from the left as the text
is read.
-/

namespace MgLang

/-! ### Trees of places -/

/-- A place with the regions inside it. -/
inductive Region where
  | mk (span : Span) (inner : List Region)

namespace Region

/-- The place of the region as a whole. -/
def span : Region → Span
  | mk span _ => span

/-- A region with none inside. -/
def leaf (span : Span) : Region :=
  mk span []

end Region

mutual

/-- The places of a region and of those inside it. -/
def Region.spans : Region → List Span
  | .mk span inner => span :: regionsSpans inner

/-- The places of regions and of those inside them. -/
def regionsSpans : List Region → List Span
  | [] => []
  | r :: rs => r.spans ++ regionsSpans rs

end

theorem regionsSpans_append (rs rs' : List Region) :
    regionsSpans (rs ++ rs') = regionsSpans rs ++ regionsSpans rs' := by
  induction rs with
  | nil => rfl
  | cons r rs ih => rw [List.cons_append, regionsSpans, regionsSpans, ih, List.append_assoc]

/-- The region is in the file and not empty. What is inside it does not reach beyond it, is in order
and does not overlap, and the same holds of each region there. -/
inductive Region.Nested (file : String) : Region → Prop
  | mk {span : Span} {inner : List Region} (hfile : span.file = file)
    (hlt : span.start < span.stop) (hinner : ∀ r ∈ inner, r.Nested file)
    (hwithin : ∀ r ∈ inner, span.start ≤ r.span.start ∧ r.span.stop ≤ span.stop)
    (hordered : inner.Pairwise fun a b => a.span.stop ≤ b.span.start) :
    Region.Nested file (.mk span inner)

/-- The regions stand between the bytes `lo` and `hi`, each behind the one before, and so do those
inside each of them between its first byte and its last. -/
inductive Row (file : String) : Nat → List Region → Nat → Prop
  | nil {lo hi : Nat} (h : lo ≤ hi) : Row file lo [] hi
  | cons {lo hi : Nat} {span : Span} {inner rs : List Region} (hfile : span.file = file)
    (hlo : lo ≤ span.start) (hlt : span.start < span.stop)
    (hinner : Row file span.start inner span.stop) (hrest : Row file span.stop rs hi) :
    Row file lo (.mk span inner :: rs) hi

namespace Row

variable {file : String} {lo mid hi : Nat} {r r' : Region} {rs rs' : List Region} {span : Span}

theorem le (h : Row file lo rs hi) : lo ≤ hi := by
  induction h with
  | nil h => exact h
  | cons _ hlo hlt _ _ _ ih => omega

theorem mono {lo' hi' : Nat} (h : Row file lo rs hi) (hlo : lo' ≤ lo) (hhi : hi ≤ hi') :
    Row file lo' rs hi' := by
  induction h generalizing lo' with
  | nil h => exact .nil (by omega)
  | cons hfile hlo' hlt hinner _ _ ih =>
    exact .cons hfile (Nat.le_trans hlo hlo') hlt hinner (ih (Nat.le_refl _) hhi)

theorem append (h : Row file lo rs mid) (h' : Row file mid rs' hi) : Row file lo (rs ++ rs') hi := by
  induction h with
  | nil h => exact h'.mono h (Nat.le_refl _)
  | cons hfile hlo hlt hinner _ _ ih => exact .cons hfile hlo hlt hinner (ih h')

/-- One region with a row inside it. -/
theorem one (hfile : span.file = file) (hlo : lo ≤ span.start) (hlt : span.start < span.stop)
    (hhi : span.stop ≤ hi) (h : Row file span.start rs span.stop) : Row file lo [.mk span rs] hi :=
  .cons hfile hlo hlt h (.nil hhi)

/-- A region in a row of its own. -/
theorem single (h : Row file lo [r] hi) :
    lo ≤ r.span.start ∧ r.span.start < r.span.stop ∧ r.span.stop ≤ hi ∧ r.span.file = file ∧
      Row file r.span.start [r] r.span.stop := by
  cases h with
  | cons hfile hlo hlt hinner hrest =>
    exact ⟨hlo, hlt, hrest.le, hfile, .one hfile (Nat.le_refl _) hlt (Nat.le_refl _) hinner⟩

/-- From the start of one region to the end of another. -/
theorem cover (h : Row file lo [r] mid) (h' : Row file mid [r'] hi) :
    Row file lo [.mk (r.span.cover r'.span) [r, r']] hi := by
  obtain ⟨hlo, hlt, hmid, hfile, hr⟩ := h.single
  obtain ⟨hmid', hlt', hhi, -, hr'⟩ := h'.single
  have hbetween : r.span.stop ≤ r'.span.start := Nat.le_trans hmid hmid'
  have hboth : Row file r.span.start [r, r'] r'.span.stop :=
    hr.append (hr'.mono hbetween (Nat.le_refl _))
  refine .one hfile hlo ?_ hhi hboth
  show r.span.start < r'.span.stop
  omega

/-- From the start of a place in front of a region to the end of the region. -/
theorem reach (hfile : span.file = file) (hlo : lo ≤ span.start) (hlt : span.start ≤ mid)
    (h : Row file mid [r] hi) : Row file lo [.mk (span.cover r.span) [r]] hi := by
  obtain ⟨hmid, hlt', hhi, -, hr⟩ := h.single
  refine .one hfile hlo ?_ hhi (hr.mono (Nat.le_trans hlt hmid) (Nat.le_refl _))
  show span.start < r.span.stop
  omega

/-- A region and what comes behind it, from its start on. -/
theorem behind (h : Row file lo [r] mid) (h' : Row file mid rs hi) :
    lo ≤ r.span.start ∧ r.span.start < hi ∧ Row file r.span.start (r :: rs) hi := by
  obtain ⟨hlo, hlt, hmid, -, hr⟩ := h.single
  have hle := h'.le
  exact ⟨hlo, by omega, hr.append (h'.mono hmid (Nat.le_refl _))⟩

/-- Around a region, with the same place. -/
theorem wrap (h : Row file lo [r] hi) : Row file lo [.mk r.span [r]] hi := by
  obtain ⟨hlo, hlt, hhi, hfile, hr⟩ := h.single
  exact .one hfile hlo hlt hhi hr

/-- In a row, every region is nested and behind those before it. -/
theorem nested (h : Row file lo rs hi) :
    (∀ r ∈ rs, r.Nested file ∧ lo ≤ r.span.start ∧ r.span.stop ≤ hi) ∧
      rs.Pairwise fun a b => a.span.stop ≤ b.span.start := by
  induction h with
  | nil => exact ⟨List.forall_mem_nil _, .nil⟩
  | @cons lo hi span inner rs hfile hlo hlt _ hrest ihinner ihrest =>
    obtain ⟨hinner, hordered⟩ := ihinner
    obtain ⟨hbehind, hordered'⟩ := ihrest
    have hle := hrest.le
    refine ⟨List.forall_mem_cons.2 ⟨⟨?_, hlo, hle⟩, fun r hr => ?_⟩,
      List.pairwise_cons.2 ⟨fun r hr => (hbehind r hr).2.1, hordered'⟩⟩
    · exact .mk hfile hlt (fun r hr => (hinner r hr).1) (fun r hr => (hinner r hr).2) hordered
    · obtain ⟨hn, hstart, hstop⟩ := hbehind r hr
      exact ⟨hn, by omega, hstop⟩

/-- Every place in a row is between its ends, at any depth. -/
theorem forall_spans (h : Row file lo rs hi) :
    ∀ s ∈ regionsSpans rs, s.file = file ∧ lo ≤ s.start ∧ s.start < s.stop ∧ s.stop ≤ hi := by
  induction h with
  | nil => exact List.forall_mem_nil _
  | @cons lo hi span inner rs hfile hlo hlt hinner hrest ihinner ihrest =>
    have hle := hrest.le
    refine List.forall_mem_append.2 ⟨List.forall_mem_cons.2 ⟨⟨hfile, hlo, hlt, hle⟩, ?_⟩, ?_⟩
    · intro s hs
      obtain ⟨hf, hstart, hne, hstop⟩ := ihinner s hs
      exact ⟨hf, by omega, hne, by omega⟩
    · intro s hs
      obtain ⟨hf, hstart, hne, hstop⟩ := ihrest s hs
      exact ⟨hf, by omega, hne, hstop⟩

end Row

/-! ### The regions of a tree -/

/-- The region of a parameter. -/
def Param.region (p : Param) : Region :=
  .leaf p.span

/-- The region of the name that a pattern gives. -/
def ArmPattern.regions : ArmPattern → List Region
  | .some _ span => [.leaf span]
  | .none | .wildcard => []

mutual

/-- The region of an expression. -/
def Expr.region (e : Expr) : Region :=
  .mk e.span
    (match e with
    | .int _ _ | .float _ _ | .string _ _ | .bool _ _ | .ident _ _ | .this _ | .noneLit _ => []
    | .interpolated _ parts => partsRegions parts
    | .someOf _ inner => [inner.region]
    | .binary _ _ left right => [left.region, right.region]
    | .unary _ _ operand => [operand.region]
    | .assign _ target value => [target.region, value.region]
    | .call _ callee args => callee.region :: exprsRegions args
    | .member _ object _ nameSpan => [object.region, .leaf nameSpan]
    | .index _ object place => [object.region, place.region]
    | .new _ _ classSpan args => .leaf classSpan :: exprsRegions args
    | .array _ items => exprsRegions items
    | .lambda _ params _ body => params.map Param.region ++ [body.region])

/-- The regions of expressions. -/
def exprsRegions : List Expr → List Region
  | [] => []
  | e :: es => e.region :: exprsRegions es

/-- The regions of the holes of an interpolated string. -/
def partsRegions : List Part → List Region
  | [] => []
  | .text _ :: parts => partsRegions parts
  | .hole e :: parts => e.region :: partsRegions parts

/-- The region of a statement. -/
def Stmt.region (s : Stmt) : Region :=
  .mk s.span
    (match s with
    | .letStmt _ _ _ value nameSpan _ => [.leaf nameSpan, value.region]
    | .returnStmt none _ => []
    | .returnStmt (some value) _ => [value.region]
    | .ifStmt condition body none _ => [condition.region, body.region]
    | .ifStmt condition body (some otherwise) _ =>
      [condition.region, body.region, otherwise.region]
    | .whileStmt condition body _ => [condition.region, body.region]
    | .forStmt _ nameSpan iterable body _ => [.leaf nameSpan, iterable.region, body.region]
    | .matchStmt scrutinee arms _ => scrutinee.region :: armsRegions arms
    | .block body => [body.region]
    | .expr value => [value.region])

/-- The regions of statements. -/
def stmtsRegions : List Stmt → List Region
  | [] => []
  | stmt :: stmts => stmt.region :: stmtsRegions stmts

/-- The region of a block. -/
def Block.region : Block → Region
  | ⟨stmts, span⟩ => .mk span (stmtsRegions stmts)

/-- The region of an arm of a `match`. -/
def Arm.region : Arm → Region
  | ⟨pattern, body, span⟩ => .mk span (pattern.regions ++ [body.region])

/-- The regions of arms. -/
def armsRegions : List Arm → List Region
  | [] => []
  | arm :: arms => arm.region :: armsRegions arms

end

theorem Expr.span_region (e : Expr) : e.region.span = e.span := by
  cases e <;> rfl

theorem Block.span_region (b : Block) : b.region.span = b.span := by
  obtain ⟨stmts, span⟩ := b
  rfl

/-- The region of a function or method. -/
def FunctionDecl.region (f : FunctionDecl) : Region :=
  .mk f.span (.leaf f.nameSpan :: (f.params.map Param.region ++ [f.body.region]))

/-- The region of a field. -/
def FieldDecl.region (f : FieldDecl) : Region :=
  .mk f.span (exprsRegions f.initial.toList)

/-- The region of a member. -/
def Member.region : Member → Region
  | field f => f.region
  | method f => f.region

/-- The members in the order in which they are written, fields among methods. -/
structure ClassDecl.Lists (c : ClassDecl) (ms : List Member) : Prop where
  fields : c.fields = ms.filterMap Member.field?
  methods : c.methods = ms.filterMap Member.method?

/-- The region that a declaration takes up. -/
inductive Item.Covers : Item → Region → Prop
  | directive (u : Using) : Covers (.directive u) (.leaf u.span)
  | function (f : FunctionDecl) : Covers (.function f) f.region
  | classDecl {c : ClassDecl} {ms : List Member} (h : c.Lists ms) :
    Covers (.classDecl c) (.mk c.span (.leaf c.nameSpan :: ms.map Member.region))

/-! ### Every place is that of a region -/

/-- The places are those of regions, or of regions inside them. -/
def Among (ps : List Span) (rs : List Region) : Prop :=
  ps ⊆ regionsSpans rs

namespace Among

variable {ps ps' : List Span} {rs rs' : List Region}

theorem nil : Among [] rs :=
  List.nil_subset _

theorem append (h : Among ps rs) (h' : Among ps' rs') : Among (ps ++ ps') (rs ++ rs') := by
  unfold Among
  rw [regionsSpans_append]
  exact List.append_subset.2 ⟨List.subset_append_of_subset_left _ h,
    List.subset_append_of_subset_right _ h'⟩

theorem behind (h : Among ps rs') (rs : List Region) : Among ps (rs ++ rs') :=
  Among.nil.append h

theorem swap (h : Among ps (rs' ++ rs)) : Among ps (rs ++ rs') := by
  unfold Among at h ⊢
  rw [regionsSpans_append] at h ⊢
  exact fun s hs => (List.mem_append.1 (h hs)).elim (List.mem_append_right _) (List.mem_append_left _)

theorem leaves {α : Type} (f : α → Span) (as : List α) :
    Among (as.map f) (as.map fun a => .leaf (f a)) := by
  induction as with
  | nil => exact .nil
  | cons a as ih => exact List.cons_subset_cons _ ih

theorem leaf (s : Span) : Among [s] [.leaf s] :=
  List.Subset.refl _

/-- Places of what is inside a region. -/
theorem inside (h : Among ps rs) (s : Span) : Among ps [.mk s rs] := by
  unfold Among
  rw [regionsSpans, Region.spans, regionsSpans, List.append_nil]
  exact List.subset_cons_of_subset _ h

/-- The place of a region, and places of what is inside it. -/
theorem node (h : Among ps rs) (s : Span) : Among (s :: ps) [.mk s rs] := by
  unfold Among
  rw [regionsSpans, Region.spans, regionsSpans, List.append_nil]
  exact List.cons_subset_cons _ h

end Among

mutual

theorem places_among : ∀ e : Expr, Among e.places [e.region]
  | .int _ _ | .float _ _ | .string _ _ | .bool _ _ | .ident _ _ | .this _ | .noneLit _ =>
    Among.nil.node _
  | .interpolated node parts => (partsPlaces_among parts).node node.span
  | .someOf node inner => (places_among inner).node node.span
  | .binary node _ left right =>
    ((places_among left).append (places_among right)).node node.span
  | .unary node _ operand => (places_among operand).node node.span
  | .assign node target value =>
    ((places_among target).append (places_among value)).node node.span
  | .call node callee args =>
    ((places_among callee).append (exprsPlaces_among args)).node node.span
  | .member node object _ nameSpan =>
    (((Among.leaf nameSpan).append (places_among object)).swap).node node.span
  | .index node object place =>
    ((places_among object).append (places_among place)).node node.span
  | .new node _ classSpan args =>
    ((Among.leaf classSpan).append (exprsPlaces_among args)).node node.span
  | .array node items => (exprsPlaces_among items).node node.span
  | .lambda node params _ body =>
    ((Among.leaves Param.span params).append (blockPlaces_among body)).node node.span

theorem exprsPlaces_among : ∀ es : List Expr, Among (exprsPlaces es) (exprsRegions es)
  | [] => .nil
  | e :: es => (places_among e).append (exprsPlaces_among es)

theorem partsPlaces_among : ∀ parts : List Part, Among (partsPlaces parts) (partsRegions parts)
  | [] => .nil
  | .text _ :: parts => partsPlaces_among parts
  | .hole e :: parts => (places_among e).append (partsPlaces_among parts)

theorem stmtPlaces_among : ∀ stmt : Stmt, Among stmt.places [stmt.region]
  | .letStmt _ _ _ value nameSpan _ =>
    ((Among.leaf nameSpan).append (places_among value)).inside _
  | .returnStmt none _ => Among.nil.node _
  | .returnStmt (some value) _ => (places_among value).inside _
  | .ifStmt condition body none _ | .whileStmt condition body _ =>
    ((places_among condition).append (blockPlaces_among body)).inside _
  | .ifStmt condition body (some otherwise) _ =>
    (((places_among condition).append (blockPlaces_among body)).append
      (stmtPlaces_among otherwise)).inside _
  | .forStmt _ nameSpan iterable body _ =>
    (((places_among iterable).append (blockPlaces_among body)).behind [.leaf nameSpan]).inside _
  | .matchStmt scrutinee arms _ =>
    ((places_among scrutinee).append (armsPlaces_among arms)).inside _
  | .block body => (blockPlaces_among body).inside _
  | .expr value => (places_among value).inside _

theorem stmtsPlaces_among : ∀ stmts : List Stmt, Among (stmtsPlaces stmts) (stmtsRegions stmts)
  | [] => .nil
  | stmt :: stmts => (stmtPlaces_among stmt).append (stmtsPlaces_among stmts)

theorem blockPlaces_among : ∀ body : Block, Among body.places [body.region]
  | ⟨stmts, span⟩ => (stmtsPlaces_among stmts).inside span

theorem armsPlaces_among : ∀ arms : List Arm, Among (armsPlaces arms) (armsRegions arms)
  | [] => .nil
  | ⟨pattern, body, span⟩ :: arms =>
    (((blockPlaces_among body).behind pattern.regions).node span).append (armsPlaces_among arms)

end

theorem FunctionDecl.places_among (f : FunctionDecl) : Among f.places [f.region] :=
  ((Among.leaf f.nameSpan).append
    ((Among.leaves Param.span f.params).append (blockPlaces_among f.body))).inside _

theorem FieldDecl.places_among (f : FieldDecl) : Among f.places [f.region] :=
  (exprsPlaces_among f.initial.toList).node f.span

/-- The places of a member. -/
def Member.places : Member → List Span
  | field f => f.places
  | method f => f.places

theorem Member.places_among (m : Member) : Among m.places [m.region] := by
  cases m with
  | field f => exact f.places_among
  | method f => exact f.places_among

/-- The places of a declaration. -/
def Item.places : Item → List Span
  | directive u => [u.span]
  | function f => f.places
  | classDecl c => c.places

theorem memberPlaces_among (ms : List Member) :
    Among (ms.flatMap Member.places) (ms.map Member.region) := by
  induction ms with
  | nil => exact .nil
  | cons m ms ih => exact m.places_among.append ih

/-- The places of a class are those of its members. -/
theorem ClassDecl.Lists.places_subset {c : ClassDecl} {ms : List Member} (h : c.Lists ms) :
    c.places ⊆ ms.flatMap Member.places := by
  intro p hp
  rcases List.mem_append.1 hp with hp | hp
  · obtain ⟨f, hf, hp⟩ := List.mem_flatMap.1 hp
    rw [h.fields] at hf
    obtain ⟨m, hm, hmf⟩ := List.mem_filterMap.1 hf
    cases m with
    | field f' =>
      cases hmf
      exact List.mem_flatMap.2 ⟨_, hm, hp⟩
    | method f' => cases hmf
  · obtain ⟨f, hf, hp⟩ := List.mem_flatMap.1 hp
    rw [h.methods] at hf
    obtain ⟨m, hm, hmf⟩ := List.mem_filterMap.1 hf
    cases m with
    | field f' => cases hmf
    | method f' =>
      cases hmf
      exact List.mem_flatMap.2 ⟨_, hm, hp⟩

theorem Item.Covers.places_among {item : Item} {r : Region} (h : item.Covers r) :
    Among item.places [r] := by
  cases h with
  | directive u => exact .leaf u.span
  | function f => exact f.places_among
  | @classDecl c ms hms =>
    have hm := ((memberPlaces_among ms).behind [.leaf c.nameSpan]).inside c.span
    exact fun s hs => hm (hms.places_subset hs)

end MgLang
