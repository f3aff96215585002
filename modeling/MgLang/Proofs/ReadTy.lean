import MgLang.Grammar.Body
import MgLang.Proofs.Bare
import MgLang.Proofs.Reads
import MgLang.Proofs.Writable
import Mathlib.Data.List.Forall2
/-!
# Reading printed types

A printed type is read back as itself wherever the lexemes after it do not go on with a type
(`readTy_print`). Parameters and return types follow.
-/

namespace MgLang

open Lexeme (separated separated_cons_cons)
open Step (Reads reads_map)
open Cursor (reads_take reads_fixed reads_name reads_accept reads_decline kind_of_shows)

variable {c : Cursor} {ls : List Lexeme}

/-! ### Types -/

theorem readPrimitiveTy_print {k : TokenKind} {ty : Ty} (hk : primitiveTy? k = some ty)
    (hc : c.shows = .fixed k :: ls) : (readPrimitiveTy c).Reads ls (· = ty) := by
  have hck : c.kind = k := kind_of_shows hc
  unfold readPrimitiveTy
  split
  · next ty' h =>
    rw [hck, hk] at h
    cases h
    exact (reads_take hc _).andThen fun _ _ _ hc _ => .done hc rfl
  · next h =>
    rw [hck, hk] at h
    cases h

/-- The lexemes do not go on with a type. -/
def EndsTy (ls : List Lexeme) : Prop :=
  headKind ls ≠ .less ∧ headKind ls ≠ .openBracket

theorem endsTy_fixed {k : TokenKind} (ls : List Lexeme)
    (h : k ≠ .less ∧ k ≠ .openBracket := by decide) : EndsTy (.fixed k :: ls) := h

theorem readTySuffixes_stop {ty : Ty} {power : Power} (hc : c.shows = ls) (hls : EndsTy ls) :
    (readTySuffixes c power ty).Reads ls (· = ty) := by
  rw [readTySuffixes, if_neg fun h => hls.2 (kind_of_shows hc ▸ h.1)]
  exact .done hc rfl

theorem readTyHead_primitive {k : TokenKind} {ty : Ty} (hk : primitiveTy? k = some ty)
    (hc : c.shows = .fixed k :: ls) : (readTyHead c).Reads ls (· = ty) := by
  have hck : c.kind = k := kind_of_shows hc
  have hp : readTyHead c = readPrimitiveTy c := by
    rw [readTyHead, hck]
    cases k <;> first | rfl | cases hk
  rw [hp]
  exact readPrimitiveTy_print hk hc

/-- The row is read as the type, wherever what follows does not go on with a type. -/
def TyRow (row : List Lexeme) (ty : Ty) : Prop :=
  ∀ ⦃c : Cursor⦄ ⦃ls : List Lexeme⦄, c.shows = row ++ ls → EndsTy ls →
    (readTy c .default).Reads ls (· = ty)

/-- The row is read as the type, and does not close the list it stands in. -/
def ParamRow (row : List Lexeme) (ty : Ty) : Prop :=
  TyRow row ty ∧ ∀ ls, headKind (row ++ ls) ≠ .closeParen

/-- A name is read as a class, even if it is that of a wrapper. -/
theorem readTyHead_named {name : String} (hc : c.shows = .name name :: ls)
    (hls : headKind ls ≠ .less) : (readTyHead c).Reads ls (· = .named name) := by
  have hck : c.kind = .identifier := kind_of_shows hc
  rw [readTyHead, hck]
  simp only
  rw [readNamedTy]
  refine reads_name hc fun token c' _ hc ht => ?_
  have hck : c'.kind ≠ .less := kind_of_shows hc ▸ hls
  split
  · next h => exact absurd h hck
  · exact .done hc (by rw [ht])

/-- A wrapper with the type inside it is read as such. -/
theorem readTyHead_wrapper {name : String} {wrap : Ty → Ty} {row : List Lexeme} {inner : Ty}
    (hw : wrapper? name = some wrap) (hi : TyRow row inner)
    (hc : c.shows = .name name :: .fixed .less :: row ++ .fixed .greater :: ls) :
    (readTyHead c).Reads ls (· = wrap inner) := by
  have hck : c.kind = .identifier := kind_of_shows hc
  rw [readTyHead, hck]
  simp only
  rw [readNamedTy]
  refine reads_name hc fun token c' _ hc ht => ?_
  have hck : c'.kind = .less := kind_of_shows hc
  split
  · next wrap' hw' _ =>
    rw [ht, hw] at hw'
    cases hw'
    refine Reads.weaken (reads_fixed hc fun _ c' _ hc => ?_)
    refine (hi hc (endsTy_fixed _)).andThen fun ty c' _ hc hty => ?_
    exact reads_fixed hc fun _ c' _ hc => .done hc (congrArg wrap hty)
  · next h => exact absurd hck (h wrap (ht ▸ hw))

theorem readTys_rows {rows : List (List Lexeme)} {tys : List Ty}
    (h : List.Forall₂ ParamRow rows tys)
    (hc : c.shows = separated rows ++ .fixed .closeParen :: ls) :
    (readTys c).Reads ls (· = tys) := by
  induction h generalizing c with
  | nil =>
    have hck : c.kind = .closeParen := kind_of_shows hc
    rw [readTys, if_pos hck]
    exact reads_fixed hc fun _ _ _ hc => .done hc rfl
  | @cons row ty rows tys hrow hrows ih =>
    obtain ⟨hread, hopen⟩ := hrow
    cases hrows with
    | nil =>
      have hck : c.kind ≠ .closeParen := kind_of_shows hc ▸ hopen _
      rw [readTys, if_neg hck]
      refine (hread hc (endsTy_fixed _)).andThen fun ty' c' _ hc ht => ?_
      refine reads_decline hc (headKind_fixed_ne _) fun c' _ hc => ?_
      exact reads_fixed hc fun _ _ _ hc => .done hc (by rw [ht])
    | cons _ _ =>
      rw [separated_cons_cons, List.append_assoc] at hc
      have hck : c.kind ≠ .closeParen := kind_of_shows hc ▸ hopen _
      rw [readTys, if_neg hck]
      refine (hread hc (endsTy_fixed _)).andThen fun _ c' _ hc ht => ?_
      refine reads_accept hc fun c' _ hc => ?_
      rw [if_pos rfl]
      exact (ih hc).andThen fun _ _ _ hc hts => .done hc (by rw [ht, hts])

/-- A function type goes on as its return type does. -/
theorem readTyHead_fn {rows : List (List Lexeme)} {row : List Lexeme} {params : List Ty} {ret : Ty}
    (hp : List.Forall₂ ParamRow rows params) (hr : TyRow row ret)
    (hc : c.shows = .fixed .kwFn :: .fixed .openParen :: separated rows ++
      .fixed .closeParen :: .fixed .arrow :: row ++ ls) (hls : EndsTy ls) :
    (readTyHead c).Reads ls (· = .fn params ret) := by
  rw [List.append_assoc] at hc
  have hck : c.kind = .kwFn := kind_of_shows hc
  rw [readTyHead, hck]
  simp only
  rw [readFnTy]
  refine reads_fixed hc fun _ c' _ hc => reads_fixed hc fun _ c' _ hc => ?_
  refine (readTys_rows hp hc).andThen fun tys c' _ hc htys => ?_
  refine reads_accept hc fun c' _ hc => ?_
  rw [if_pos rfl]
  exact reads_map.2 ((hr hc hls).weaken.mono fun r hr => by rw [htys, hr])

/-- A printed type does not close the list it stands in. -/
theorem Ty.headKind_print {ty : Ty} (h : ty.Writable) (ls : List Lexeme) :
    headKind (ty.print ++ ls) ≠ .closeParen := by
  cases ty with
  | unknown => exact h.elim
  | _ => exact nofun

mutual

theorem readTyHead_print : ∀ (ty : Ty), ty.Writable → ∀ {c : Cursor} {ls : List Lexeme},
    c.shows = ty.print ++ ls → EndsTy ls → (readTyHead c).Reads ls (· = ty)
  | .int, _, _, _, hc, _ => readTyHead_primitive rfl hc
  | .float, _, _, _, hc, _ => readTyHead_primitive rfl hc
  | .string, _, _, _, hc, _ => readTyHead_primitive rfl hc
  | .bool, _, _, _, hc, _ => readTyHead_primitive rfl hc
  | .void, _, _, _, hc, _ => readTyHead_primitive rfl hc
  | .fn params ret, h, _, _, hc, hls =>
    readTyHead_fn (paramRows_print params h.1) (readTy_print ret h.2) hc hls
  | .named name, _, _, _, hc, hls => readTyHead_named hc hls.1
  | .option inner, h, _, _, hc, _ => by
    rw [Ty.print, List.append_assoc] at hc
    exact readTyHead_wrapper rfl (readTy_print inner h) hc
  | .array inner, h, _, _, hc, _ => by
    rw [Ty.print, List.append_assoc] at hc
    exact readTyHead_wrapper rfl (readTy_print inner h) hc

/-- A printed type is read back, if what follows is no part of it. -/
theorem readTy_print (ty : Ty) (h : ty.Writable) : TyRow ty.print ty := by
  intro c ls hc hls
  rw [readTy]
  refine (readTyHead_print ty h hc hls).andThen fun ty' c' _ hc ht => ?_
  exact ht ▸ readTySuffixes_stop hc hls

theorem paramRows_print : ∀ (tys : List Ty), TysWritable tys →
    List.Forall₂ ParamRow (printTys tys) tys
  | [], _ => .nil
  | ty :: tys, h =>
    .cons ⟨readTy_print ty h.1, Ty.headKind_print h.1⟩ (paramRows_print tys h.2)

end

theorem readReturnTy_print {ret : Ty} (h : ret.Writable)
    (hc : c.shows = .fixed .arrow :: ret.print ++ ls) (hls : EndsTy ls) :
    (readReturnTy c).Reads ls (· = ret) := by
  unfold readReturnTy
  refine reads_accept hc fun c' _ hc => ?_
  rw [if_pos rfl]
  exact (readTy_print ret h hc hls).weaken

/-- The type of a variable is read, if it is there. -/
theorem reads_annotation {α : Type} {j : Nat} {ty : Option Ty} {rest : List Lexeme} {P : α → Prop}
    {f : (c' : Cursor) → Option Ty → (c'' : Cursor) → c''.weight + 0 ≤ c'.weight → Step j c'' α}
    (h : ∀ t ∈ ty, t.Writable) (hc : c.shows = printAnnotation ty ++ ls)
    (hls : headKind ls ≠ .colon) (hend : EndsTy ls)
    (hf : ∀ c' c'' hw, c''.shows = ls → (f c' ty c'' hw).Reads rest P) :
    ((c.accept .colon).andThen fun colon c' _ =>
      (if colon then (readTy c' .default).weaken.map some else .done c' none).andThen
        (f c')).Reads rest P := by
  cases ty with
  | none =>
    refine reads_decline hc hls fun c' _ hc => ?_
    exact (Reads.done hc rfl).andThen fun v c'' hw hc hv => hv ▸ hf c' c'' hw hc
  | some ty =>
    refine reads_accept hc fun c' _ hc => ?_
    refine (readTy_print ty (h ty rfl) hc hend).present.andThen ?_
    rintro _ c'' hw hc' ⟨t, rfl, rfl⟩
    exact hf c' c'' hw hc'

/-! ### Parameters -/

theorem readParamList_print : ∀ {params : List Param}, ParamsWritable params →
    ∀ {c : Cursor} {ls : List Lexeme},
      c.shows = separated (params.map Param.print) ++ .fixed .closeParen :: ls →
        (readParamList c).Reads ls (·.map Param.bare = params.map Param.bare)
  | [], _, c, ls, hc => by
    have hck : c.kind = .closeParen := kind_of_shows hc
    rw [readParamList, if_pos hck]
    exact reads_fixed hc fun _ _ _ hc => .done hc rfl
  | [p], h, c, ls, hc => by
    have hck : c.kind = .identifier := kind_of_shows hc
    rw [readParamList, if_neg (by rw [hck]; decide)]
    refine reads_name hc fun name c' _ hc hn => reads_fixed hc fun _ c' _ hc => ?_
    refine (readTy_print p.ty (h p List.mem_cons_self) hc (endsTy_fixed _)).andThen
      fun ty c' _ hc ht => ?_
    refine reads_decline hc (headKind_fixed_ne _) fun c' _ hc => ?_
    exact reads_fixed hc fun _ _ _ hc => .done hc (by simp [Param.bare, hn, ht])
  | p :: p' :: params, h, c, ls, hc => by
    rw [List.map_cons, List.map_cons, separated_cons_cons, List.append_assoc] at hc
    have hck : c.kind = .identifier := kind_of_shows hc
    rw [readParamList, if_neg (by rw [hck]; decide)]
    refine reads_name hc fun name c' _ hc hn => reads_fixed hc fun _ c' _ hc => ?_
    refine (readTy_print p.ty (h p List.mem_cons_self) hc (endsTy_fixed _)).andThen
      fun ty c' _ hc ht => ?_
    refine reads_accept hc fun c' _ hc => ?_
    rw [if_pos rfl]
    have hps : ParamsWritable (p' :: params) := fun q hq => h q (List.mem_cons_of_mem _ hq)
    refine (readParamList_print hps hc).andThen fun qs _ _ hc hqs => .done hc ?_
    rw [List.map_cons, List.map_cons, hqs]
    simp [Param.bare, hn, ht]

theorem readParams_print {params : List Param} (h : ParamsWritable params)
    (hc : c.shows = .fixed .openParen :: separated (params.map Param.print) ++
      .fixed .closeParen :: ls) :
    (readParams c).Reads ls (·.map Param.bare = params.map Param.bare) :=
  reads_fixed hc fun _ _ _ hc => readParamList_print h hc

end MgLang
