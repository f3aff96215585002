import Mathlib.Data.List.Basic
import MgLang.Project.Load
/-!
# One module for one file

A source file comes into a compilation in one of three ways: a project finds it below a directory
with sources, it is added under the path that it has in the project, or a user names it outright.
Each way reads the path of a module off another path of the file. The main statement is
`routes_agree`: all of them find the same module, whose path is that of the file below its sources
(`SourcePath.moduleOf`).

A path below the sources is made of parts of which none is called `src`; so nothing of it is taken
for the way to the sources (`SourcePath.not_startsWith`), and it begins behind the last `src`
(`afterLastSrc_append`).
-/

namespace MgLang

/-! ### Splitting and joining -/

section

variable {sep : Char} {ss : List (List Char)}

theorem splitOn_append (sep : Char) (as bs : List Char) :
    splitOn sep (as ++ sep :: bs) = splitOn sep as ++ splitOn sep bs := by
  induction as with
  | nil => simp [splitOn]
  | cons a as ih =>
    rw [List.cons_append, splitOn, splitOn, ih]
    split
    · rfl
    · obtain ⟨s, ss, hs⟩ := List.exists_cons_of_ne_nil (splitOn_ne_nil sep as)
      rw [hs]
      rfl

theorem splitOn_of_not_mem {cs : List Char} (h : sep ∉ cs) : splitOn sep cs = [cs] := by
  induction cs with
  | nil => rfl
  | cons c cs ih =>
    rw [List.mem_cons, not_or] at h
    rw [splitOn, if_neg (Ne.symm h.1), ih h.2]

theorem joinWith_cons_of_ne_nil (s : List Char) (h : ss ≠ []) :
    joinWith sep (s :: ss) = s ++ sep :: joinWith sep ss := by
  cases ss with
  | nil => contradiction
  | cons => rfl

/-- Splitting finds the pieces again. -/
theorem splitOn_joinWith (hne : ss ≠ []) (h : ∀ s ∈ ss, sep ∉ s) :
    splitOn sep (joinWith sep ss) = ss := by
  induction ss with
  | nil => contradiction
  | cons s ss ih =>
    obtain ⟨hs, hss⟩ := List.forall_mem_cons.1 h
    by_cases hnil : ss = []
    · subst hnil
      exact splitOn_of_not_mem hs
    · rw [joinWith_cons_of_ne_nil s hnil, splitOn_append, splitOn_of_not_mem hs, ih hnil hss]
      rfl

theorem joinWith_concat_append (ss : List (List Char)) (s e : List Char) :
    joinWith sep (ss ++ [s ++ e]) = joinWith sep (ss ++ [s]) ++ e := by
  induction ss with
  | nil => rfl
  | cons t ss ih =>
    rw [List.cons_append, List.cons_append, joinWith_cons_of_ne_nil t (by simp),
      joinWith_cons_of_ne_nil t (by simp), ih, List.append_assoc, List.cons_append]

theorem mem_joinWith {c : Char} (h : c ∈ joinWith sep ss) : c = sep ∨ ∃ s ∈ ss, c ∈ s := by
  induction ss with
  | nil => cases h
  | cons s ss ih =>
    by_cases hnil : ss = []
    · subst hnil
      exact .inr ⟨s, List.mem_cons_self, h⟩
    · rw [joinWith_cons_of_ne_nil s hnil, List.mem_append, List.mem_cons] at h
      rcases h with h | h | h
      · exact .inr ⟨s, List.mem_cons_self, h⟩
      · exact .inl h
      · exact (ih h).imp_right fun ⟨t, ht, hc⟩ => ⟨t, List.mem_cons_of_mem _ ht, hc⟩

/-- To exchange a character that does not occur changes nothing. -/
theorem map_exchange {c c' : Char} {cs : List Char} (h : c ∉ cs) :
    cs.map (fun x => if x = c then c' else x) = cs := by
  have hsame (x : Char) (hx : x ∈ cs) : (if x = c then c' else x) = x := by
    refine if_neg ?_
    rintro rfl
    exact h hx
  exact (List.map_congr_left hsame).trans (List.map_id cs)

/-- Another separator stands between the same pieces. -/
theorem map_joinWith {sep' : Char} (h : ∀ s ∈ ss, sep ∉ s) :
    (joinWith sep ss).map (fun x => if x = sep then sep' else x) = joinWith sep' ss := by
  induction ss with
  | nil => rfl
  | cons s ss ih =>
    obtain ⟨hs, hss⟩ := List.forall_mem_cons.1 h
    by_cases hnil : ss = []
    · subst hnil
      exact map_exchange hs
    · rw [joinWith_cons_of_ne_nil s hnil, joinWith_cons_of_ne_nil s hnil, List.map_append,
        List.map_cons, map_exchange hs, if_pos rfl, ih hss]

end

/-- The beginning of a path, up to a slash. -/
def IsFront (front : List Char) : Prop :=
  front = [] ∨ ∃ f, front = f ++ ['/']

theorem splitOn_front {front : List Char} (h : IsFront front) :
    ∃ fs, ∀ cs, splitOn '/' (front ++ cs) = fs ++ splitOn '/' cs := by
  rcases h with rfl | ⟨f, rfl⟩
  · exact ⟨[], fun cs => rfl⟩
  · refine ⟨splitOn '/' f, fun cs => ?_⟩
    rw [List.append_assoc, List.singleton_append, splitOn_append]

/-- The last name in a path is what stands behind its last slash. -/
theorem lastPiece_front {front cs : List Char} (h : IsFront front) (hcs : '/' ∉ cs) :
    lastPiece '/' (front ++ cs) = cs := by
  have hfar : ∀ c ∈ cs.reverse, (c != '/') = true := by
    intro c hc
    refine bne_iff_ne.2 fun he => hcs ?_
    rwa [← he, ← List.mem_reverse]
  rw [lastPiece, List.reverse_append, List.takeWhile_append_of_pos hfar]
  rcases h with rfl | ⟨f, rfl⟩ <;> simp

theorem joinWith_concat (ss : List (List Char)) (s : List Char) :
    ∃ front, IsFront front ∧ joinWith '/' (ss ++ [s]) = front ++ s := by
  by_cases hnil : ss = []
  · subst hnil
    exact ⟨[], .inl rfl, rfl⟩
  · refine ⟨joinWith '/' ss ++ ['/'], .inr ⟨_, rfl⟩, ?_⟩
    induction ss with
    | nil => contradiction
    | cons t ss ih =>
      by_cases hlast : ss = []
      · subst hlast
        simp [joinWith]
      · rw [List.cons_append, joinWith_cons_of_ne_nil t (by simp), ih hlast,
          joinWith_cons_of_ne_nil t hlast]
        simp

/-! ### Paths below the sources -/

/-- The name of a directory or of a file. -/
structure IsPlain (name : String) : Prop where
  ne_empty : name ≠ ""
  ne_current : name ≠ "."
  ne_parent : name ≠ ".."
  no_slash : '/' ∉ name.toList

/-- A name that can stand in a path below a directory with sources. -/
structure IsPart (name : String) : Prop extends IsPlain name where
  ne_src : name ≠ "src"
  no_backslash : '\\' ∉ name.toList

instance (name : String) : Decidable (IsPlain name) :=
  decidable_of_iff (name ≠ "" ∧ name ≠ "." ∧ name ≠ ".." ∧ '/' ∉ name.toList)
    ⟨fun ⟨h₁, h₂, h₃, h₄⟩ => ⟨h₁, h₂, h₃, h₄⟩, fun ⟨h₁, h₂, h₃, h₄⟩ => ⟨h₁, h₂, h₃, h₄⟩⟩

instance (name : String) : Decidable (IsPart name) :=
  decidable_of_iff (IsPlain name ∧ name ≠ "src" ∧ '\\' ∉ name.toList)
    ⟨fun ⟨h₁, h₂, h₃⟩ => ⟨h₁, h₂, h₃⟩, fun ⟨h₁, h₂, h₃⟩ => ⟨h₁, h₂, h₃⟩⟩

/-- A source file, by its path below a directory with sources. -/
structure SourcePath where
  /-- The directories that the file is in, the outermost first. -/
  dirs : List String
  /-- The name of the file without `.mg`. -/
  base : String
  parts : ∀ name ∈ dirs ++ [base ++ ".mg"], IsPart name

namespace SourcePath

/-- The parts of the path. -/
def names (p : SourcePath) : List String :=
  p.dirs ++ [p.base ++ ".mg"]

/-- The path as it is written. -/
def text (p : SourcePath) : String :=
  joinNames p.names

/-- The parts of the path with dots between them, without `.mg`. -/
def dotted (p : SourcePath) : String :=
  .ofList (joinWith '.' ((p.dirs ++ [p.base]).map (·.toList)))

/-- The file is the `lib.mg` of its package. -/
def IsLibrary (p : SourcePath) : Prop :=
  p.dirs = [] ∧ p.base = "lib"

instance (p : SourcePath) : Decidable p.IsLibrary :=
  inferInstanceAs (Decidable (_ ∧ _))

/-- The path of the module that the file is part of. -/
def moduleOf (p : SourcePath) : Package → String
  | .root name => if p.IsLibrary then name else p.dotted
  | .dependency name => if p.IsLibrary then name else name ++ "." ++ p.dotted
  | .builtin => p.dotted

variable (p : SourcePath)

theorem names_ne_nil : p.names ≠ [] := by
  simp [names]

theorem toList_text : p.text.toList = joinWith '/' (p.names.map (·.toList)) := by
  rw [text, joinNames, String.toList_ofList]

/-- The path is made of its parts. -/
theorem splitOn_text : splitOn '/' p.text.toList = p.names.map (·.toList) := by
  rw [toList_text]
  refine splitOn_joinWith (by simp [names]) fun s hs => ?_
  obtain ⟨name, hname, rfl⟩ := List.mem_map.1 hs
  exact (p.parts name hname).no_slash

theorem isPart_of_mem {s : List Char} (h : s ∈ splitOn '/' p.text.toList) :
    IsPart (.ofList s) := by
  rw [splitOn_text] at h
  obtain ⟨name, hname, rfl⟩ := List.mem_map.1 h
  rw [String.ofList_toList]
  exact p.parts name hname

/-- What is no part of a path stands nowhere in it between slashes. -/
theorem not_startsWith {s front : List Char} (hs : '/' ∉ s) (hpart : ¬ IsPart (.ofList s))
    (hfront : IsFront front) : ¬ front ++ (s ++ ['/']) <+: p.text.toList := by
  rintro ⟨rest, h⟩
  obtain ⟨fs, hfs⟩ := splitOn_front hfront
  refine hpart (p.isPart_of_mem ?_)
  rw [← h, List.append_assoc, hfs, List.append_assoc, List.singleton_append, splitOn_append,
    splitOn_of_not_mem hs]
  simp

theorem not_startsWith_src : ¬ "src/".toList <+: p.text.toList :=
  p.not_startsWith (s := "src".toList) (by decide) (fun h => h.ne_src rfl) (.inl rfl)

/-- The path does not begin with a `./`. -/
theorem not_startsWith_current : ¬ "./".toList <+: p.text.toList :=
  p.not_startsWith (s := ".".toList) (by decide) (fun h => h.ne_current rfl) (.inl rfl)

/-- The path is not taken for one from the directory of the project. -/
theorem not_startsWith_dependencySources (name : String) :
    ¬ (dependencySources name).toList <+: p.text.toList := by
  have hfront : IsFront (packagesDir ++ "/" ++ name ++ "/").toList :=
    .inr ⟨_, String.toList_append⟩
  have h := p.not_startsWith (s := "src".toList) (by decide) (fun h => h.ne_src rfl) hfront
  rwa [show "src".toList ++ ['/'] = "src/".toList from rfl, ← String.toList_append,
    String.append_assoc, show "/" ++ "src/" = "/src/" from rfl] at h

end SourcePath

/-! ### The path of a module -/

theorem dropFront_append (front cs : List Char) : dropFront front (front ++ cs) = cs := by
  rw [dropFront, List.isPrefixOf?_eq_some_iff_append_eq.2 rfl, Option.getD_some]

theorem dropFront_of_not_startsWith {front cs : List Char} (h : ¬ front <+: cs) :
    dropFront front cs = cs := by
  unfold dropFront
  cases hp : front.isPrefixOf? cs with
  | none => rfl
  | some rest => exact absurd ⟨rest, List.isPrefixOf?_eq_some_iff_append_eq.1 hp⟩ h

theorem dropBack_append (cs back : List Char) : dropBack back (cs ++ back) = cs := by
  rw [dropBack, List.isSuffixOf?_eq_some_iff_append_eq.2 rfl, Option.getD_some]

/-- That many `./`. -/
def heres : Nat → String
  | 0 => ""
  | k + 1 => "./" ++ heres k

theorem isFront_heres (k : Nat) : IsFront (heres k).toList := by
  induction k with
  | zero => exact .inl rfl
  | succ k ih =>
    rw [heres, String.toList_append]
    rcases ih with ih | ⟨f, ih⟩
    · exact .inr ⟨['.'], by rw [ih]; rfl⟩
    · exact .inr ⟨"./".toList ++ f, by rw [ih, List.append_assoc]⟩

theorem dropCurrent_heres {cs : List Char} (h : ¬ "./".toList <+: cs) (k : Nat) :
    dropCurrent ((heres k).toList ++ cs) = cs := by
  induction k with
  | zero =>
    show dropCurrent cs = cs
    unfold dropCurrent
    split
    · exact absurd ⟨_, rfl⟩ h
    · rfl
  | succ k ih =>
    rw [heres, String.toList_append, List.append_assoc]
    exact ih

/-- The text is the path, perhaps with backslashes in the place of slashes. -/
def Spells (file path : String) : Prop :=
  (file.toList.map fun c => if c = '\\' then '/' else c) = path.toList

theorem toList_dependencySources (name : String) :
    (dependencySources name).toList = ".magolor/packages/".toList ++ (name ++ "/src/").toList := by
  rw [← String.toList_append, ← String.append_assoc]
  rfl

/-- The way to the sources, as it stands before a path below them. -/
inductive ToSources (package : Package) : String → Prop
  | here : ToSources package ""
  | src : ToSources package "src/"
  | unpacked {name : String} (h : package = .dependency name) :
    ToSources package (dependencySources name)

/-- What stands behind the way to the sources. -/
def belowSources (package : Package) (relative : List Char) : List Char :=
  match package with
  | .dependency name =>
    dropFront "src/".toList (dropFront (dependencySources name).toList relative)
  | _ => dropFront "src/".toList relative

theorem dottedPath_eq_below (file : String) (package : Package) :
    dottedPath file package = .ofList ((dropBack ".mg".toList (belowSources package (dropCurrent
      (file.toList.map fun c => if c = '\\' then '/' else c)))).map
        fun c => if c = '/' then '.' else c) := by
  cases package <;> rfl

namespace SourcePath

variable (p : SourcePath) {package : Package} {front : String}

/-- No way to the sources begins with a `./`. -/
theorem not_startsWith_way (h : ToSources package front) :
    ¬ "./".toList <+: front.toList ++ p.text.toList := by
  cases h with
  | here => exact p.not_startsWith_current
  | src =>
    rintro ⟨rest, h⟩
    exact absurd (congrArg (·[0]?) h : some '.' = some 's') (by decide)
  | unpacked =>
    rintro ⟨rest, h⟩
    rw [toList_dependencySources] at h
    exact absurd (congrArg (·[1]?) h : some '/' = some 'm') (by decide)

/-- What the names below the sources are joined to. -/
theorem dotted_eq : String.ofList ((dropBack ".mg".toList p.text.toList).map
    fun c => if c = '/' then '.' else c) = p.dotted := by
  have hbase : '/' ∉ p.base.toList := by
    have h := (p.parts _ (List.mem_append_right _ (List.mem_singleton_self _))).no_slash
    rw [String.toList_append, List.mem_append, not_or] at h
    exact h.1
  have hparts : ∀ s ∈ (p.dirs ++ [p.base]).map (·.toList), '/' ∉ s := by
    intro s hs
    obtain ⟨name, hname, rfl⟩ := List.mem_map.1 hs
    rcases List.mem_append.1 hname with hname | hname
    · exact (p.parts name (List.mem_append_left _ hname)).no_slash
    · rwa [List.mem_singleton.1 hname]
  have htext : p.text.toList =
      joinWith '/' ((p.dirs ++ [p.base]).map (·.toList)) ++ ".mg".toList := by
    rw [toList_text, names, List.map_append, List.map_append, List.map_singleton,
      List.map_singleton, String.toList_append, joinWith_concat_append]
  rw [htext, dropBack_append, map_joinWith hparts, dotted]

/-- The way to the sources is dropped, and nothing else. -/
theorem belowSources_way (h : ToSources package front) :
    belowSources package (front.toList ++ p.text.toList) = p.text.toList := by
  have hsrc := dropFront_of_not_startsWith p.not_startsWith_src
  cases h with
  | here =>
    cases package with
    | dependency name =>
      have hname := dropFront_of_not_startsWith (p.not_startsWith_dependencySources name)
      exact (congrArg (dropFront "src/".toList) hname).trans hsrc
    | _ => exact hsrc
  | src =>
    cases package with
    | dependency name =>
      have hother : ¬ (dependencySources name).toList <+: "src/".toList ++ p.text.toList := by
        rintro ⟨rest, h⟩
        rw [toList_dependencySources] at h
        exact absurd (congrArg (·[0]?) h : some '.' = some 's') (by decide)
      exact (congrArg (dropFront "src/".toList) (dropFront_of_not_startsWith hother)).trans
        (dropFront_append _ _)
    | _ => exact dropFront_append _ _
  | unpacked h =>
    subst h
    exact (congrArg (dropFront "src/".toList) (dropFront_append _ _)).trans hsrc

/-- Whatever way to the sources is written before it, the path of the file below them counts. -/
theorem dottedPath_eq (h : ToSources package front) {file : String} {k : Nat}
    (hfile : Spells file (heres k ++ (front ++ p.text))) : dottedPath file package = p.dotted := by
  rw [Spells, String.toList_append, String.toList_append] at hfile
  rw [dottedPath_eq_below, hfile, dropCurrent_heres (p.not_startsWith_way h), p.belowSources_way h,
    p.dotted_eq]

/-- Only the `lib.mg` at the top of its sources is the library. -/
theorem dotted_eq_lib : p.dotted = "lib" ↔ p.IsLibrary := by
  constructor
  · intro h
    have hchars : joinWith '.' ((p.dirs ++ [p.base]).map (·.toList)) = "lib".toList := by
      rw [← h, dotted, String.toList_ofList]
    cases hdirs : p.dirs with
    | nil =>
      rw [hdirs] at hchars
      exact ⟨hdirs, String.toList_injective hchars⟩
    | cons dir dirs =>
      -- There is a dot behind the first directory.
      rw [hdirs, List.cons_append, List.map_cons, joinWith_cons_of_ne_nil _ (by simp)] at hchars
      have hdot : '.' ∈ "lib".toList := by simp [← hchars]
      exact absurd hdot (by decide)
  · rintro ⟨hdirs, hbase⟩
    rw [dotted, hdirs, hbase]
    rfl

/-- The module is that of the path below the sources. -/
theorem modulePath_eq (h : ToSources package front) {file : String} {k : Nat}
    (hfile : Spells file (heres k ++ (front ++ p.text))) :
    modulePath file package = p.moduleOf package := by
  unfold modulePath moduleOf
  rw [p.dottedPath_eq h hfile]
  cases package <;> simp only [dotted_eq_lib]

/-- The path is written without backslashes. -/
theorem spells_text : Spells p.text (heres 0 ++ ("" ++ p.text)) := by
  rw [Spells, heres, String.empty_append, String.empty_append]
  refine map_exchange fun hmem => ?_
  rw [toList_text] at hmem
  rcases mem_joinWith hmem with he | ⟨s, hs, hmem⟩
  · cases he
  · obtain ⟨name, hname, rfl⟩ := List.mem_map.1 hs
    exact (p.parts name hname).no_backslash hmem

theorem modulePath_text (package : Package) : modulePath p.text package = p.moduleOf package :=
  p.modulePath_eq .here p.spells_text

end SourcePath

/-! ### Files that a user names -/

section

variable {names : List String}

theorem PathPart.split_eq (path : String) :
    PathPart.split path = PathPart.start (splitOn '/' path.toList) ++
      (splitOn '/' path.toList).filterMap PathPart.ofSegment? := rfl

theorem IsPlain.toList_ne {name : String} (h : IsPlain name) :
    name.toList ≠ [] ∧ name.toList ≠ ['.'] ∧ name.toList ≠ ['.', '.'] :=
  ⟨fun he => h.ne_empty (String.toList_injective he),
    fun he => h.ne_current (String.toList_injective he),
    fun he => h.ne_parent (String.toList_injective he)⟩

theorem PathPart.ofSegment?_name {name : String} (h : IsPlain name) :
    PathPart.ofSegment? name.toList = some (.name name) := by
  obtain ⟨hempty, hcurrent, hparent⟩ := h.toList_ne
  rw [PathPart.ofSegment?, if_neg (by simp [hempty, hcurrent]), if_neg hparent,
    String.ofList_toList]

theorem PathPart.filterMap_ofSegment? (h : ∀ name ∈ names, IsPlain name) :
    (names.map (·.toList)).filterMap PathPart.ofSegment? = names.map .name := by
  rw [List.filterMap_map, ← List.filterMap_eq_map]
  exact List.filterMap_congr fun name hname => PathPart.ofSegment?_name (h name hname)

/-- What a path with a slash begins with depends on what stands before the first slash. -/
theorem PathPart.start_cons_cons (a b : List Char) (as : List (List Char)) :
    PathPart.start (a :: b :: as) = PathPart.start [a, []] := by
  rcases a with _ | ⟨c, a⟩
  · rfl
  · by_cases hc : c = '.'
    · subst hc
      cases a <;> rfl
    · simp [PathPart.start, hc]

/-- There are no names in a row of `./`. -/
theorem PathPart.name?_heres (k : Nat) : ∀ part ∈ PathPart.split (heres k), part.name? = none := by
  have hnone : (splitOn '/' (heres k).toList).filterMap PathPart.ofSegment? = [] := by
    induction k with
    | zero => rfl
    | succ k ih =>
      have hsplit : splitOn '/' (heres (k + 1)).toList = ['.'] :: splitOn '/' (heres k).toList := by
        rw [heres, String.toList_append]
        exact splitOn_append '/' ['.'] _
      rw [hsplit, List.filterMap_cons_none rfl, ih]
  rw [PathPart.split_eq, hnone, List.append_nil]
  generalize splitOn '/' (heres k).toList = segments
  unfold PathPart.start
  split <;> simp [PathPart.name?]

/-- A path is what stands before its last slashes, and names behind it. -/
theorem PathPart.split_append {front : String} (hfront : IsFront front.toList) (hne : names ≠ [])
    (h : ∀ name ∈ names, IsPlain name) :
    PathPart.split (front ++ joinNames names) = PathPart.split front ++ names.map .name := by
  have hsplit : splitOn '/' (joinNames names).toList = names.map (·.toList) := by
    rw [joinNames, String.toList_ofList]
    refine splitOn_joinWith (by simpa using hne) fun s hs => ?_
    obtain ⟨name, hname, rfl⟩ := List.mem_map.1 hs
    exact (h name hname).no_slash
  obtain ⟨name, rest, rfl⟩ := List.exists_cons_of_ne_nil hne
  rw [PathPart.split_eq, PathPart.split_eq, String.toList_append]
  rcases hfront with hfront | ⟨f, hfront⟩
  · have hstart : PathPart.start ((name :: rest).map (·.toList)) = [] := by
      obtain ⟨hempty, hcurrent, -⟩ := (h name List.mem_cons_self).toList_ne
      simp [PathPart.start, hempty, hcurrent]
    rw [hfront, List.nil_append, hsplit, PathPart.filterMap_ofSegment? h, hstart]
    rfl
  · obtain ⟨a, as, ha⟩ := List.exists_cons_of_ne_nil (splitOn_ne_nil '/' f)
    have hstart (b : List Char) (bs : List (List Char)) :
        PathPart.start (splitOn '/' f ++ b :: bs) = PathPart.start [a, []] := by
      rw [ha]
      cases as <;> exact PathPart.start_cons_cons _ _ _
    have hlast : splitOn '/' (f ++ ['/']) = splitOn '/' f ++ [[]] := splitOn_append '/' f []
    rw [hfront, hlast, List.append_assoc, List.singleton_append, splitOn_append, hsplit,
      List.filterMap_append, PathPart.filterMap_ofSegment? h, List.filterMap_append, hstart,
      List.map_cons, hstart, ← List.append_assoc]
    simp [PathPart.ofSegment?]

theorem afterLastSrc_append {front : List String} (hfront : front = [] ∨ ∃ f, front = f ++ ["src"])
    (h : "src" ∉ names) : afterLastSrc (front ++ names) = names := by
  have hkept : ∀ name ∈ names.reverse, (name != "src") = true := by
    intro name hname
    refine bne_iff_ne.2 fun he => h ?_
    rwa [← he, ← List.mem_reverse]
  rw [afterLastSrc, List.reverse_append, List.takeWhile_append_of_pos hkept]
  rcases hfront with rfl | ⟨f, rfl⟩ <;> simp

/-- A directory lies below another one. -/
def Below (above : List PathPart) (dir : String) : Prop :=
  ∃ name rest, PathPart.split dir = above ++ .name name :: rest

/-- What is left of a path below a directory is the file, with some of the way to the sources before
it. -/
theorem relative_suffix (names : List String) {above : List PathPart} {cwd : String}
    (hcwd : ¬ Below above cwd) :
    ∃ front, front <:+ above ∧
      ((PathPart.split cwd).isPrefixOf? (above ++ names.map .name)).getD
        (above ++ names.map .name) = front ++ names.map .name := by
  cases hp : (PathPart.split cwd).isPrefixOf? (above ++ names.map .name) with
  | none => exact ⟨above, List.suffix_refl above, rfl⟩
  | some rest =>
    rw [Option.getD_some]
    rcases List.append_eq_append_iff.1 (List.isPrefixOf?_eq_some_iff_append_eq.1 hp) with
      ⟨front, habove, hrest⟩ | ⟨inside, hinside, hrest⟩
    · exact ⟨front, ⟨_, habove.symm⟩, hrest⟩
    · cases inside with
      | nil => exact ⟨[], List.nil_suffix, hrest.symm⟩
      | cons part inside =>
        -- The directory would be one of those that the file is in.
        have hmem : part ∈ names.map PathPart.name := by simp [hrest]
        obtain ⟨name, -, rfl⟩ := List.mem_map.1 hmem
        exact absurd ⟨name, inside, hinside⟩ hcwd

end

namespace SourcePath

variable (p : SourcePath)

theorem isPlain : ∀ name ∈ p.names, IsPlain name :=
  fun name hname => (p.parts name hname).toIsPlain

theorem src_not_mem : "src" ∉ p.names :=
  fun hmem => (p.parts _ hmem).ne_src rfl

/-- A file that is named outright belongs to the module of its path behind the last `src`. -/
theorem loosePath_eq {path cwd : String} {above : List PathPart}
    (hpath : PathPart.split path = above ++ p.names.map .name)
    (habove : ∀ front, front <:+ above → front.filterMap PathPart.name? = [] ∨
      ∃ f, front.filterMap PathPart.name? = f ++ ["src"])
    (hcwd : ¬ Below above cwd) (package : Package) :
    loosePath path cwd package = p.moduleOf package := by
  obtain ⟨front, hfront, hrelative⟩ := relative_suffix p.names hcwd
  have hnames : (p.names.map PathPart.name).filterMap PathPart.name? = p.names := by
    rw [List.filterMap_map]
    exact List.filterMap_some
  have hlast := afterLastSrc_append (habove front hfront) p.src_not_mem
  simp only [loosePath, hpath, hrelative, List.filterMap_append, hnames, hlast]
  exact p.modulePath_text package

/-- The way to the sources ends with their directory. -/
theorem loosePath_src {front cwd : String} (hfront : IsFront front.toList)
    (hcwd : ¬ Below (PathPart.split (front ++ "src")) cwd) (package : Package) :
    loosePath (front ++ ("src/" ++ p.text)) cwd package = p.moduleOf package := by
  have hsrc : IsPlain "src" := ⟨by decide, by decide, by decide, by decide⟩
  have habove : PathPart.split (front ++ "src") = PathPart.split front ++ [.name "src"] := by
    have hdir : "src" = joinNames ["src"] := String.toList_injective String.toList_ofList.symm
    have hplain : ∀ name ∈ ["src"], IsPlain name := List.forall_mem_singleton.2 hsrc
    conv_lhs => rw [hdir]
    exact PathPart.split_append hfront (List.cons_ne_nil _ _) hplain
  have htext : "src/" ++ p.text = joinNames ("src" :: p.names) := by
    refine String.toList_injective ?_
    rw [joinNames, String.toList_ofList, List.map_cons, joinWith_cons_of_ne_nil _ (by simp [names]),
      String.toList_append, toList_text]
    rfl
  rw [habove] at hcwd
  refine p.loosePath_eq ?_ (fun tail htail => ?_) hcwd package
  · rw [htext, PathPart.split_append hfront (by simp)
      (List.forall_mem_cons.2 ⟨hsrc, p.isPlain⟩)]
    simp
  · rcases List.suffix_concat_iff.1 htail with rfl | ⟨f, rfl, -⟩
    · exact .inl rfl
    · exact .inr ⟨f.filterMap PathPart.name?, by simp [PathPart.name?]⟩

/-- There is nothing between the sources and the path, be it written with `./`. -/
theorem loosePath_heres {k : Nat} {cwd : String} (hcwd : ¬ Below (PathPart.split (heres k)) cwd)
    (package : Package) : loosePath (heres k ++ p.text) cwd package = p.moduleOf package := by
  refine p.loosePath_eq ?_ (fun front hfront => .inl ?_) hcwd package
  · exact PathPart.split_append (isFront_heres k) p.names_ne_nil p.isPlain
  · exact List.filterMap_eq_nil_iff.2 fun part hpart =>
      PathPart.name?_heres k part (hfront.subset hpart)

/-- The file is one that a search for sources lists, unless it has no name but `.mg`. -/
theorem isSourceName_text (hbase : p.base ≠ "") : isSourceName p.text = true := by
  have hlast := p.parts _ (List.mem_append_right _ (List.mem_singleton_self _))
  obtain ⟨front, hfront, hjoin⟩ := joinWith_concat (p.dirs.map (·.toList)) (p.base ++ ".mg").toList
  have htext : p.text.toList = front ++ (p.base ++ ".mg").toList := by
    rw [toList_text, names, List.map_append, List.map_singleton, hjoin]
  have hlength : 0 < p.base.toList.length :=
    List.length_pos_iff.2 fun he => hbase (String.toList_injective he)
  have hpiece : lastPiece '/' p.text.toList = p.base.toList ++ ".mg".toList := by
    rw [htext, lastPiece_front hfront hlast.no_slash, String.toList_append]
  simp only [isSourceName, hpiece, Bool.and_eq_true, decide_eq_true_eq,
    List.isSuffixOf_iff_suffix]
  refine ⟨?_, List.suffix_append _ _⟩
  rw [List.length_append, show ".mg".toList.length = 3 from rfl]
  omega

end SourcePath

/-! ### All ways lead to one module -/

/-- A file that a directory lists is among the sources, in the module of its path there. -/
theorem mem_sourcesIn (fs : FileAccess Id) (root : String) {dir file : String} {package : Package}
    {files : List String} (hlist : fs.list (joinPath root dir) = some files) (hfile : file ∈ files)
    (hname : isSourceName file = true) {roots : List (String × Package)}
    (hroots : (dir, package) ∈ roots) :
    ⟨joinPath (joinPath root dir) file, relativePath root (joinPath (joinPath root dir) file),
      modulePath file package, package⟩ ∈ (sourcesIn fs root roots).run := by
  induction roots with
  | nil => cases hroots
  | cons d roots ih =>
    show _ ∈ List.map _ (((fs.list (joinPath root d.1)).getD []).filter isSourceName) ++
      (sourcesIn fs root roots).run
    rcases List.mem_cons.1 hroots with rfl | hroots
    · refine List.mem_append_left _ (List.mem_map.2 ⟨file, ?_, rfl⟩)
      rw [hlist, Option.getD_some]
      exact List.mem_filter.2 ⟨hfile, hname⟩
    · exact List.mem_append_right _ (ih hroots)

/-- The ways by which a file of a package can come into a compilation lead to one module, that of
its path below its sources. -/
structure SourcePath.Agrees (p : SourcePath) (package : Package) : Prop where
  modulePath : modulePath p.text package = p.moduleOf package
  /-- A project finds it below a directory with sources. -/
  found : ∀ (fs : FileAccess Id) (root dir : String) (manifest : Manifest) (files : List String),
    (dir, package) ∈ manifest.sourceRoots → fs.list (joinPath root dir) = some files →
    p.text ∈ files → p.base ≠ "" →
    ⟨joinPath (joinPath root dir) p.text, relativePath root (joinPath (joinPath root dir) p.text),
      p.moduleOf package, package⟩ ∈ (collectSources fs root manifest).run
  /-- It is added under its path in the project, which begins with any number of `./` and may be
  spelled with backslashes. -/
  added : ∀ (k : Nat) (file : String), Spells file (heres k ++ ("src/" ++ p.text)) →
    ∀ (c : Compilation) (text : String),
      c.add file text package = c.addAs (p.moduleOf package) file text package
  /-- So it is with a dependency under the path where it is unpacked. -/
  unpacked : ∀ (name : String) (k : Nat) (file : String), package = .dependency name →
    Spells file (heres k ++ (dependencySources name ++ p.text)) →
    ∀ (c : Compilation) (text : String),
      c.add file text package = c.addAs (p.moduleOf package) file text package
  /-- A user names it, below any `src`, from anywhere but below that `src`. -/
  named : ∀ (front cwd : String), IsFront front.toList →
    ¬ Below (PathPart.split (front ++ "src")) cwd →
    (looseFile cwd package (front ++ ("src/" ++ p.text))).module = p.moduleOf package
  /-- A user names it by its path below the sources alone. -/
  namedHere : ∀ (k : Nat) (cwd : String), ¬ Below (PathPart.split (heres k)) cwd →
    (looseFile cwd package (heres k ++ p.text)).module = p.moduleOf package

/-- **All ways lead to one module.** Whether a project finds a file below its sources, whether the
file is added under its path in the project, or whether a user names it, from anywhere but below
those sources: it is part of the same module. That is the package itself for the `lib.mg` at the top
of a project or of a dependency, and else the path below the sources with dots, for a dependency
behind its name. -/
theorem routes_agree (p : SourcePath) (package : Package) : p.Agrees package where
  modulePath := p.modulePath_text package
  found fs root dir manifest files hdir hlist hfile hbase := by
    have hmem := mem_sourcesIn fs root hlist hfile (p.isSourceName_text hbase) hdir
    rw [p.modulePath_text package] at hmem
    exact List.mem_mergeSort.2 hmem
  added k file hfile c text := by
    rw [Compilation.add, p.modulePath_eq .src hfile]
  unpacked name k file hname hfile c text := by
    rw [Compilation.add, p.modulePath_eq (.unpacked hname) hfile]
  named _ _ hfront hcwd := p.loosePath_src hfront hcwd package
  namedHere _ _ hcwd := p.loosePath_heres hcwd package

example : (SourcePath.mk ["math"] "basic" (by decide)).moduleOf (.dependency "mathlib") =
    "mathlib.math.basic" := by decide

/-- A `lib.mg` of the built-in library would be called `lib`, and not after its package. And where
the name of a dependency has a backslash, the path under which it is unpacked is not taken for the
way to its sources. -/
theorem routes_exceptions : modulePath "src/lib.mg" .builtin ≠ Package.builtin.name ∧
    modulePath ".magolor/packages/a\\b/src/x.mg" (.dependency "a\\b") ≠ "a\\b.x" := by
  decide

end MgLang
