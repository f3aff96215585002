import MgLang.Proofs.Writable
import MgLang.Typing.Subtype
import Mathlib.Order.Defs.Unbundled
/-!
# Subtyping with unknown types

Among the types that can be written, `Ty.isAssignable` is an order: the least one that has `int`
below `float`, goes along with optional values, arrays and results of functions, and turns round at
parameters (`Ty.Sub`). An unknown part of a type stands for any type. Whether a value can be stored
somewhere is then whether it can for some way to fill in the unknown parts of both types, each part
by itself (`Ty.Fills`). `isAssignable_consistent` is both statements.

The rules that the function follows are `Ty.Stores`. They are not transitive, as anything can be
stored where nothing is known, but they are through a type without unknown parts (`Stores.trans`).
-/

namespace MgLang

namespace Ty

/-! ### The order on types -/

mutual

/-- Values of the first type are values of the second. -/
inductive Sub : Ty → Ty → Prop
  | refl (a : Ty) : Sub a a
  | trans {a b c : Ty} : Sub a b → Sub b c → Sub a c
  | widen : Sub int float
  | option {a b : Ty} : Sub a b → Sub (option a) (option b)
  | array {a b : Ty} : Sub a b → Sub (array a) (array b)
  | fn {ps qs : List Ty} {r s : Ty} : SubAll qs ps → Sub r s → Sub (fn ps r) (fn qs s)

/-- The lists are equally long, and their members are pairwise in the order. -/
inductive SubAll : List Ty → List Ty → Prop
  | nil : SubAll [] []
  | cons {p q : Ty} {ps qs : List Ty} : Sub p q → SubAll ps qs → SubAll (p :: ps) (q :: qs)

end

mutual

/-- Types in the order are both without unknown parts, or neither is. -/
theorem Sub.writable_iff {a b : Ty} : Sub a b → (a.Writable ↔ b.Writable)
  | .refl _ => .rfl
  | .trans hab hbc => hab.writable_iff.trans hbc.writable_iff
  | .widen => .rfl
  | .option h | .array h => h.writable_iff
  | .fn hps hr => and_congr hps.writable_iff.symm hr.writable_iff

theorem SubAll.writable_iff {ps qs : List Ty} : SubAll ps qs → (TysWritable ps ↔ TysWritable qs)
  | .nil => .rfl
  | .cons hp hps => and_congr hp.writable_iff hps.writable_iff

end

/-! ### What can be stored where -/

mutual

/-- A value of the first type can be stored where the second is expected. -/
inductive Stores : Ty → Ty → Prop
  | refl (a : Ty) : Stores a a
  | ofUnknown (b : Ty) : Stores unknown b
  | toUnknown (a : Ty) : Stores a unknown
  | widen : Stores int float
  | option {a b : Ty} : Stores a b → Stores (option a) (option b)
  | array {a b : Ty} : Stores a b → Stores (array a) (array b)
  | fn {ps qs : List Ty} {r s : Ty} : StoresAll qs ps → Stores r s → Stores (fn ps r) (fn qs s)

/-- The lists are equally long, and values of each type of the first can be stored where the type of
the second at its place is expected. -/
inductive StoresAll : List Ty → List Ty → Prop
  | nil : StoresAll [] []
  | cons {p q : Ty} {ps qs : List Ty} :
    Stores p q → StoresAll ps qs → StoresAll (p :: ps) (q :: qs)

end

/-- The rules hold between types in one direction or the other. -/
theorem stores_of_flows : ∀ (forward : Bool) (a b : Ty), flows forward a b = true →
    if forward then Stores a b else Stores b a := by
  refine flows.induct_unfolding
    (fun forward a b flow => flow = true → if forward then Stores a b else Stores b a)
    (fun forward ps qs flow => flow = true → if forward then StoresAll ps qs else StoresAll qs ps)
    ?unknownLeft ?unknownRight ?intFloat ?floatInt ?option ?array ?fn ?other ?nil ?cons ?unequal
  case unknownLeft =>
    rintro (_ | _) b -
    · exact .toUnknown b
    · exact .ofUnknown b
  case unknownRight =>
    rintro a (_ | _) - -
    · exact .ofUnknown a
    · exact .toUnknown a
  case intFloat =>
    rintro _ rfl
    exact .widen
  case floatInt =>
    rintro (_ | _) h
    · exact .widen
    · cases h
  case option =>
    rintro (_ | _) a b ih h
    · exact .option (ih h)
    · exact .option (ih h)
  case array =>
    rintro (_ | _) a b ih h
    · exact .array (ih h)
    · exact .array (ih h)
  case fn =>
    -- Parameters are compared in the other direction.
    rintro (_ | _) ps r qs s ihps ihr h
    · obtain ⟨hps, hr⟩ := Bool.and_eq_true_iff.1 h
      exact .fn (ihps hps) (ihr hr)
    · obtain ⟨hps, hr⟩ := Bool.and_eq_true_iff.1 h
      exact .fn (ihps hps) (ihr hr)
  case other =>
    rintro (_ | _) a b - - - - - - - h
    · exact beq_iff_eq.1 h ▸ .refl a
    · exact beq_iff_eq.1 h ▸ .refl a
  case nil =>
    rintro (_ | _) -
    · exact .nil
    · exact .nil
  case cons =>
    rintro (_ | _) p ps q qs ihp ihps h
    · obtain ⟨hp, hps⟩ := Bool.and_eq_true_iff.1 h
      exact .cons (ihp hp) (ihps hps)
    · obtain ⟨hp, hps⟩ := Bool.and_eq_true_iff.1 h
      exact .cons (ihp hp) (ihps hps)
  case unequal =>
    intro _ _ _ _ _ h
    cases h

mutual

theorem flows_self (forward : Bool) : ∀ a : Ty, flows forward a a = true
  | fn ps r => by rw [flows, flowsAll_self, flows_self, Bool.and_self]
  | option a | array a => by rw [flows, flows_self]
  | int | float | string | bool | void | named _ | unknown => by simp [flows]

theorem flowsAll_self (forward : Bool) : ∀ ps : List Ty, flowsAll forward ps ps = true
  | [] => rfl
  | p :: ps => by rw [flowsAll, flows_self, flowsAll_self, Bool.and_self]

end

theorem flows_unknown (forward : Bool) (a : Ty) : flows forward a unknown = true := by
  cases a <;> rfl

mutual

/-- What the rules say is found in both directions. -/
theorem Stores.flows {a b : Ty} : Stores a b → flows true a b = true ∧ flows false b a = true
  | .refl a => ⟨flows_self true a, flows_self false a⟩
  | .ofUnknown b => ⟨by rw [Ty.flows], flows_unknown false b⟩
  | .toUnknown a => ⟨flows_unknown true a, by rw [Ty.flows]⟩
  | .widen => ⟨rfl, rfl⟩
  | .option h | .array h => h.flows
  | .fn hps hr => by
    obtain ⟨htrue, hfalse⟩ := hps.flowsAll
    obtain ⟨htrue', hfalse'⟩ := hr.flows
    exact ⟨Bool.and_eq_true_iff.2 ⟨hfalse, htrue'⟩, Bool.and_eq_true_iff.2 ⟨htrue, hfalse'⟩⟩

theorem StoresAll.flowsAll {ps qs : List Ty} :
    StoresAll ps qs → flowsAll true ps qs = true ∧ flowsAll false qs ps = true
  | .nil => ⟨rfl, rfl⟩
  | .cons hp hps => by
    obtain ⟨htrue, hfalse⟩ := hp.flows
    obtain ⟨htrue', hfalse'⟩ := hps.flowsAll
    exact ⟨Bool.and_eq_true_iff.2 ⟨htrue, htrue'⟩, Bool.and_eq_true_iff.2 ⟨hfalse, hfalse'⟩⟩

end

/-- A value can be stored somewhere exactly where the rules say so. -/
theorem isAssignable_iff_stores {a b : Ty} : a.isAssignable b = true ↔ Stores a b :=
  ⟨stores_of_flows true a b, fun h => h.flows.1⟩

/-! ### The rules without unknown types -/

mutual

/-- What can be stored in a place of a known type can be stored wherever values of that type can. -/
theorem Stores.trans : ∀ {b : Ty}, b.Writable → ∀ {a c : Ty}, Stores a b → Stores b c → Stores a c
  | _, _, _, _, .refl _, hbc => hbc
  | _, _, _, _, hab, .refl _ => hab
  | _, _, _, _, .ofUnknown _, _ => .ofUnknown _
  | _, _, _, _, _, .toUnknown _ => .toUnknown _
  | .option b, hb, _, _, .option hab, .option hbc => by
    have hw : b.Writable := hb
    exact .option (Stores.trans hw hab hbc)
  | .array b, hb, _, _, .array hab, .array hbc => by
    have hw : b.Writable := hb
    exact .array (Stores.trans hw hab hbc)
  | .fn _ _, hb, _, _, .fn hps hr, .fn hts ht =>
    .fn (StoresAll.trans hb.1 hts hps) (Stores.trans hb.2 hr ht)

theorem StoresAll.trans : ∀ {qs : List Ty}, TysWritable qs → ∀ {ps ts : List Ty},
    StoresAll ps qs → StoresAll qs ts → StoresAll ps ts
  | [], _, _, _, .nil, .nil => .nil
  | _ :: _, hqs, _, _, .cons hp hps, .cons hq hts =>
    .cons (Stores.trans hqs.1 hp hq) (StoresAll.trans hqs.2 hps hts)

end

mutual

theorem Stores.antisymm {a b : Ty} : Stores a b → Stores b a → a.Writable → b.Writable → a = b
  | .refl _, _, _, _ => rfl
  | .ofUnknown _, _, ha, _ => ha.elim
  | .toUnknown _, _, _, hb => hb.elim
  | .option _, .refl _, _, _ | .array _, .refl _, _, _ | .fn _ _, .refl _, _, _ => rfl
  | .option hab, .option hba, ha, hb => by rw [hab.antisymm hba ha hb]
  | .array hab, .array hba, ha, hb => by rw [hab.antisymm hba ha hb]
  | .fn hqs hr, .fn hps hs, ha, hb => by rw [hqs.antisymm hps hb.1 ha.1, hr.antisymm hs ha.2 hb.2]

theorem StoresAll.antisymm {ps qs : List Ty} :
    StoresAll ps qs → StoresAll qs ps → TysWritable ps → TysWritable qs → ps = qs
  | .nil, _, _, _ => rfl
  | .cons hp hpqs, .cons hq hqps, hps, hqs => by
    rw [hp.antisymm hq hps.1 hqs.1, hpqs.antisymm hqps hps.2 hqs.2]

end

mutual

/-- The rules without those for unknown types are rules of the order. -/
theorem Stores.sub {a b : Ty} : Stores a b → a.Writable → b.Writable → Sub a b
  | .refl a, _, _ => .refl a
  | .ofUnknown _, ha, _ => ha.elim
  | .toUnknown _, _, hb => hb.elim
  | .widen, _, _ => .widen
  | .option h, ha, hb => .option (h.sub ha hb)
  | .array h, ha, hb => .array (h.sub ha hb)
  | .fn hps hr, ha, hb => .fn (hps.subAll hb.1 ha.1) (hr.sub ha.2 hb.2)

theorem StoresAll.subAll {ps qs : List Ty} :
    StoresAll ps qs → TysWritable ps → TysWritable qs → SubAll ps qs
  | .nil, _, _ => .nil
  | .cons hp hps, hpw, hqw => .cons (hp.sub hpw.1 hqw.1) (hps.subAll hpw.2 hqw.2)

end

mutual

/-- The order allows nothing that the rules do not. -/
theorem Sub.stores {a b : Ty} : Sub a b → a.Writable → Stores a b
  | .refl a, _ => .refl a
  | .trans hab hbc, ha => by
    have hb := hab.writable_iff.1 ha
    exact (hab.stores ha).trans hb (hbc.stores hb)
  | .widen, _ => .widen
  | .option h, ha => .option (h.stores ha)
  | .array h, ha => .array (h.stores ha)
  | .fn hps hr, ha => .fn (hps.storesAll (hps.writable_iff.2 ha.1)) (hr.stores ha.2)

theorem SubAll.storesAll {ps qs : List Ty} : SubAll ps qs → TysWritable ps → StoresAll ps qs
  | .nil, _ => .nil
  | .cons hp hps, hw => .cons (hp.stores hw.1) (hps.storesAll hw.2)

end

/-! ### Filling in unknown parts -/

mutual

/-- The second type is the first one with a type that can be written in the place of every unknown
part. Two parts need not be filled in alike. -/
inductive Fills : Ty → Ty → Prop
  | unknown {b : Ty} : b.Writable → Fills unknown b
  | int : Fills int int
  | float : Fills float float
  | string : Fills string string
  | bool : Fills bool bool
  | void : Fills void void
  | named (name : String) : Fills (named name) (named name)
  | option {a b : Ty} : Fills a b → Fills (option a) (option b)
  | array {a b : Ty} : Fills a b → Fills (array a) (array b)
  | fn {ps qs : List Ty} {r s : Ty} : FillsAll ps qs → Fills r s → Fills (fn ps r) (fn qs s)

/-- The types of the second list are those of the first, filled in. -/
inductive FillsAll : List Ty → List Ty → Prop
  | nil : FillsAll [] []
  | cons {p q : Ty} {ps qs : List Ty} : Fills p q → FillsAll ps qs → FillsAll (p :: ps) (q :: qs)

end

mutual

theorem Fills.writable {a b : Ty} : Fills a b → b.Writable
  | .unknown h => h
  | .int | .float | .string | .bool | .void | .named _ => trivial
  | .option h | .array h => h.writable
  | .fn hps hr => ⟨hps.writable, hr.writable⟩

theorem FillsAll.writable {ps qs : List Ty} : FillsAll ps qs → TysWritable qs
  | .nil => trivial
  | .cons hp hps => ⟨hp.writable, hps.writable⟩

end

mutual

/-- Every type can be filled in. -/
theorem exists_fills : ∀ a : Ty, ∃ b, Fills a b
  | .unknown => ⟨.int, .unknown trivial⟩
  | .int => ⟨_, .int⟩
  | .float => ⟨_, .float⟩
  | .string => ⟨_, .string⟩
  | .bool => ⟨_, .bool⟩
  | .void => ⟨_, .void⟩
  | .named name => ⟨_, .named name⟩
  | .option a => (exists_fills a).imp' option fun _ => .option
  | .array a => (exists_fills a).imp' array fun _ => .array
  | .fn ps r => by
    obtain ⟨qs, hqs⟩ := exists_fillsAll ps
    obtain ⟨s, hs⟩ := exists_fills r
    exact ⟨.fn qs s, .fn hqs hs⟩

theorem exists_fillsAll : ∀ ps : List Ty, ∃ qs, FillsAll ps qs
  | [] => ⟨[], .nil⟩
  | p :: ps => by
    obtain ⟨q, hq⟩ := exists_fills p
    obtain ⟨qs, hqs⟩ := exists_fillsAll ps
    exact ⟨q :: qs, .cons hq hqs⟩

end

mutual

/-- Types that can be filled in alike can be stored in place of each other. -/
theorem Fills.stores : ∀ {c a b : Ty}, Fills a c → Fills b c → Stores a b
  | _, _, _, .unknown _, _ => .ofUnknown _
  | _, _, _, _, .unknown _ => .toUnknown _
  | _, _, _, .int, .int | _, _, _, .float, .float | _, _, _, .string, .string
  | _, _, _, .bool, .bool | _, _, _, .void, .void | _, _, _, .named _, .named _ => .refl _
  | _, _, _, .option ha, .option hb => .option (ha.stores hb)
  | _, _, _, .array ha, .array hb => .array (ha.stores hb)
  | _, _, _, .fn hps hr, .fn hqs hs => .fn (hqs.storesAll hps) (hr.stores hs)

theorem FillsAll.storesAll : ∀ {ts ps qs : List Ty}, FillsAll ps ts → FillsAll qs ts →
    StoresAll ps qs
  | _, _, _, .nil, .nil => .nil
  | _, _, _, .cons hp hps, .cons hq hqs => .cons (hp.stores hq) (hps.storesAll hqs)

end

mutual

/-- What can be stored once unknown parts are filled in can be stored before. -/
theorem Stores.of_fills {a' b' : Ty} : Stores a' b' → ∀ {a b : Ty}, Fills a a' → Fills b b' →
    Stores a b
  | .refl _, _, _, ha, hb => ha.stores hb
  | .ofUnknown _, _, _, ha, _ => ha.writable.elim
  | .toUnknown _, _, _, _, hb => hb.writable.elim
  | _, _, _, .unknown _, _ => .ofUnknown _
  | _, _, _, _, .unknown _ => .toUnknown _
  | .widen, _, _, .int, .float => .widen
  | .option h, _, _, .option ha, .option hb => .option (h.of_fills ha hb)
  | .array h, _, _, .array ha, .array hb => .array (h.of_fills ha hb)
  | .fn hps hr, _, _, .fn ha hra, .fn hb hrb => .fn (hps.of_fillsAll hb ha) (hr.of_fills hra hrb)

theorem StoresAll.of_fillsAll {ps' qs' : List Ty} : StoresAll ps' qs' → ∀ {ps qs : List Ty},
    FillsAll ps ps' → FillsAll qs qs' → StoresAll ps qs
  | .nil, _, _, .nil, .nil => .nil
  | .cons hp hps, _, _, .cons ha has, .cons hb hbs =>
    .cons (hp.of_fills ha hb) (hps.of_fillsAll has hbs)

end

mutual

/-- Where something can be stored, unknown parts can be filled in such that it still can. -/
theorem Stores.exists_fills {a b : Ty} : Stores a b →
    ∃ a' b', Fills a a' ∧ Fills b b' ∧ Stores a' b'
  | .refl a => by
    obtain ⟨a', ha⟩ := Ty.exists_fills a
    exact ⟨a', a', ha, ha, .refl a'⟩
  | .ofUnknown b => by
    obtain ⟨b', hb⟩ := Ty.exists_fills b
    exact ⟨b', b', .unknown hb.writable, hb, .refl b'⟩
  | .toUnknown a => by
    obtain ⟨a', ha⟩ := Ty.exists_fills a
    exact ⟨a', a', ha, .unknown ha.writable, .refl a'⟩
  | .widen => ⟨int, float, .int, .float, .widen⟩
  | .option h => by
    obtain ⟨a', b', ha, hb, h'⟩ := h.exists_fills
    exact ⟨option a', option b', .option ha, .option hb, .option h'⟩
  | .array h => by
    obtain ⟨a', b', ha, hb, h'⟩ := h.exists_fills
    exact ⟨array a', array b', .array ha, .array hb, .array h'⟩
  | .fn hps hr => by
    obtain ⟨qs', ps', hq, hp, hps'⟩ := hps.exists_fillsAll
    obtain ⟨r', s', ha, hb, hr'⟩ := hr.exists_fills
    exact ⟨fn ps' r', fn qs' s', .fn hp ha, .fn hq hb, .fn hps' hr'⟩

theorem StoresAll.exists_fillsAll {ps qs : List Ty} : StoresAll ps qs →
    ∃ ps' qs', FillsAll ps ps' ∧ FillsAll qs qs' ∧ StoresAll ps' qs'
  | .nil => ⟨[], [], .nil, .nil, .nil⟩
  | .cons hp hps => by
    obtain ⟨p', q', hp', hq', h⟩ := hp.exists_fills
    obtain ⟨ps', qs', hps', hqs', hs⟩ := hps.exists_fillsAll
    exact ⟨p' :: ps', q' :: qs', .cons hp' hps', .cons hq' hqs', .cons h hs⟩

end

end Ty

/-! ### Consistent subtyping -/

/-- A type without unknown parts. -/
abbrev WritableTy := { ty : Ty // ty.Writable }

/-- **Subtyping with unknown types.** Among the types without unknown parts, being able to store a
value is a partial order, and it is the one that the rules of `Ty.Sub` generate. For any two types,
a value of one can be stored where the other is expected exactly if it can once the unknown parts of
both are filled in somehow. -/
theorem isAssignable_consistent :
    IsPartialOrder WritableTy (fun a b => a.1.isAssignable b.1) ∧
      (∀ a b : WritableTy, a.1.isAssignable b.1 ↔ Ty.Sub a.1 b.1) ∧
      ∀ a b : Ty, a.isAssignable b ↔
        ∃ a' b' : WritableTy, Ty.Fills a a'.1 ∧ Ty.Fills b b'.1 ∧ a'.1.isAssignable b'.1 := by
  simp only [Ty.isAssignable_iff_stores]
  refine ⟨{ refl := ?_, trans := ?_, antisymm := ?_ }, ?_, ?_⟩
  · intro a
    exact .refl a.1
  · intro a b c hab hbc
    exact hab.trans b.2 hbc
  · intro a b hab hba
    exact Subtype.ext (hab.antisymm hba a.2 b.2)
  · intro a b
    exact ⟨fun h => h.sub a.2 b.2, fun h => h.stores a.2⟩
  · intro a b
    constructor
    · intro h
      obtain ⟨a', b', ha, hb, h'⟩ := h.exists_fills
      exact ⟨⟨a', ha.writable⟩, ⟨b', hb.writable⟩, ha, hb, h'⟩
    · rintro ⟨a', b', ha, hb, h'⟩
      exact h'.of_fills ha hb

end MgLang
