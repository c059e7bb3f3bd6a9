import StatContract.Json.Basic
import Mathlib.Data.List.Perm.Basic

/-!
# Arrangements of an object

The members of an object may stand in any order, members that nobody asks for may
stand among them, and a member may be left out when it has its default value.
`Json.Arranged parts` says that a value is an object with the given parts in one of
these arrangements.

Whoever reads an object looks only at which members there are, and at their values.
`Json.Fits` says that much about an arrangement, without an order.
-/

namespace StatContract

namespace Json

/-- A member that an object is to have: its name, what its value may look like, and
whether it may be left out. -/
structure Member where
  name : String
  value : Json → Prop
  optional : Prop := False

/-- The parts are written in their order; an optional one may be left out. -/
inductive Lists : List Member → List (String × Json) → Prop where
  | nil : Lists [] []
  | keep {part : Member} {parts : List Member} {v : Json} {members : List (String × Json)}
      (hvalue : part.value v) (hrest : Lists parts members) :
      Lists (part :: parts) ((part.name, v) :: members)
  | drop {part : Member} {parts : List Member} {members : List (String × Json)}
      (hoptional : part.optional) (hrest : Lists parts members) :
      Lists (part :: parts) members

/-- An object with the given parts in any order, among any members of other
names. -/
inductive Arranged (parts : List Member) : Json → Prop where
  | intro {own extra members : List (String × Json)} (hlists : Lists parts own)
      (hextra : ∀ m ∈ extra, m.1 ∉ parts.map Member.name ∧ m.2.intact = true)
      (hperm : members.Perm (own ++ extra)) : Arranged parts (.object members)

/-- A text. -/
def TextOf (s : String) (v : Json) : Prop := v = .string s

/-- An array whose items are as required. -/
def ArrayOf (items : List Json → Prop) (v : Json) : Prop := ∃ vs, v = .array vs ∧ items vs

/-- A value that may be absent. -/
def OptionOf {α : Type} (written : α → Json → Prop) : Option α → Json → Prop
  | none => (· = .null)
  | some a => written a

/-- Everything in its order, and nothing else, is one arrangement. -/
theorem Lists.arranged {parts : List Member} {members : List (String × Json)}
    (h : Lists parts members) : Arranged parts (.object members) :=
  .intro h (List.forall_mem_nil _) (by rw [List.append_nil])

theorem textOf_string (s : String) : TextOf s (.string s) := rfl

theorem arrayOf_array {items : List Json → Prop} {vs : List Json} (h : items vs) :
    ArrayOf items (.array vs) := ⟨vs, rfl, h⟩

theorem membersIntact_iff : ∀ members : List (String × Json),
    membersIntact members = true ↔ ∀ m ∈ members, m.2.intact = true
  | [] => by simp [membersIntact]
  | (_, v) :: rest => by simp [membersIntact, membersIntact_iff rest]

mutual

/-- What has no gap in it can be skipped. -/
theorem skippable_of_intact : ∀ v : Json, v.intact = true → v.skippable = true
  | .null, _ | .bool _, _ | .number _, _ | .string _, _ => by rw [skippable] <;> simp
  | .array items, h => allSkippable_of_allIntact items h
  | .object members, h => membersSkippable_of_membersIntact members h
  | .gap, h | .cut, h | .nameless, h => by simp [intact] at h

theorem allSkippable_of_allIntact :
    ∀ vs : List Json, allIntact vs = true → allSkippable vs = true
  | [], _ => rfl
  | v :: vs, h => by
      rw [allIntact, Bool.and_eq_true] at h
      rw [allSkippable, skippable_of_intact v h.1, allSkippable_of_allIntact vs h.2]
      rfl

theorem membersSkippable_of_membersIntact :
    ∀ members : List (String × Json), membersIntact members = true → membersSkippable members = true
  | [], _ => rfl
  | (_, v) :: rest, h => by
      rw [membersIntact, Bool.and_eq_true] at h
      rw [membersSkippable, skippable_of_intact v h.1, membersSkippable_of_membersIntact rest h.2]
      rfl

end

/-- The members have the values of the parts they are named for, each part is there
once unless it may be left out, and other members have no gaps. -/
structure Fits (parts : List Member) (members : List (String × Json)) : Prop where
  value : ∀ m ∈ members, ∀ part ∈ parts, part.name = m.1 → part.value m.2
  other : ∀ m ∈ members, m.1 ∉ parts.map Member.name → m.2.intact = true
  once : members.Pairwise fun m m' => m.1 = m'.1 → m.1 ∉ parts.map Member.name
  present : ∀ part ∈ parts, part.optional ∨ part.name ∈ members.map Prod.fst

variable {parts : List Member} {members : List (String × Json)}

theorem Lists.names_sublist (h : Lists parts members) :
    (members.map Prod.fst).Sublist (parts.map Member.name) := by
  induction h with
  | nil => exact .slnil
  | keep _ _ ih => exact ih.cons_cons _
  | drop _ _ ih => exact ih.cons _

theorem Lists.mem_names (h : Lists parts members) {m : String × Json} (hm : m ∈ members) :
    m.1 ∈ parts.map Member.name :=
  h.names_sublist.subset (List.mem_map_of_mem hm)

theorem Lists.value (h : Lists parts members) (hnodup : (parts.map Member.name).Nodup) :
    ∀ m ∈ members, ∀ part ∈ parts, part.name = m.1 → part.value m.2 := by
  induction h with
  | nil => exact List.forall_mem_nil _
  | @keep first parts v members hvalue hrest ih =>
      rw [List.map_cons, List.nodup_cons] at hnodup
      intro m hm part hpart hname
      rcases List.mem_cons.1 hm with rfl | hm' <;> rcases List.mem_cons.1 hpart with rfl | hpart'
      · exact hvalue
      · exact absurd (List.mem_map.2 ⟨part, hpart', hname⟩) hnodup.1
      · exact absurd (hname ▸ hrest.mem_names hm') hnodup.1
      · exact ih hnodup.2 m hm' part hpart' hname
  | @drop first parts members _ hrest ih =>
      rw [List.map_cons, List.nodup_cons] at hnodup
      intro m hm part hpart hname
      rcases List.mem_cons.1 hpart with rfl | hpart'
      · exact absurd (hname ▸ hrest.mem_names hm) hnodup.1
      · exact ih hnodup.2 m hm part hpart' hname

theorem Lists.present (h : Lists parts members) :
    ∀ part ∈ parts, part.optional ∨ part.name ∈ members.map Prod.fst := by
  induction h with
  | nil => exact List.forall_mem_nil _
  | keep _ _ ih =>
      intro part hpart
      rcases List.mem_cons.1 hpart with rfl | hpart
      · exact .inr List.mem_cons_self
      · exact (ih part hpart).imp_right (List.mem_cons_of_mem _)
  | drop hoptional _ ih =>
      intro part hpart
      rcases List.mem_cons.1 hpart with rfl | hpart
      · exact .inl hoptional
      · exact ih part hpart

/-- What an arrangement comes to, whatever its order. -/
theorem Arranged.fits (h : Arranged parts (.object members))
    (hnodup : (parts.map Member.name).Nodup) : Fits parts members := by
  cases h with
  | @intro own extra _ hlists hextra hperm =>
    refine ⟨fun m hm part hpart hname => ?_, fun m hm hother => ?_, ?_, fun part hpart => ?_⟩
    · rcases List.mem_append.1 (hperm.mem_iff.1 hm) with hm | hm
      · exact hlists.value hnodup m hm part hpart hname
      · exact absurd (List.mem_map.2 ⟨part, hpart, hname⟩) (hextra m hm).1
    · rcases List.mem_append.1 (hperm.mem_iff.1 hm) with hm | hm
      · exact absurd (hlists.mem_names hm) hother
      · exact (hextra m hm).2
    · have hsymm : ∀ {m m' : String × Json}, (m.1 = m'.1 → m.1 ∉ parts.map Member.name) →
          m'.1 = m.1 → m'.1 ∉ parts.map Member.name := by
        intro m m' h heq
        rw [heq]
        exact h heq.symm
      refine (hperm.pairwise_iff hsymm).2 (List.pairwise_append.2 ⟨?_, ?_, ?_⟩)
      · have hnames : (own.map Prod.fst).Nodup := hnodup.sublist hlists.names_sublist
        exact (List.pairwise_map.1 hnames).imp fun hne heq => absurd heq hne
      · exact List.pairwise_of_forall_mem_list fun m hm m' _ _ => (hextra m hm).1
      · intro m hm m' hm' heq
        exact absurd (heq ▸ hlists.mem_names hm) (hextra m' hm').1
    · rcases hlists.present part hpart with hoptional | hmem
      · exact .inl hoptional
      · refine .inr ((hperm.map Prod.fst).mem_iff.2 ?_)
        rw [List.map_append]
        exact List.mem_append_left _ hmem

theorem Arranged.exists_fits {j : Json} (h : Arranged parts j)
    (hnodup : (parts.map Member.name).Nodup) :
    ∃ members, j = .object members ∧ Fits parts members := by
  cases h with
  | @intro own extra members hlists hextra hperm =>
      exact ⟨members, rfl, (Arranged.intro hlists hextra hperm).fits hnodup⟩

theorem Fits.intact (h : Fits parts members)
    (hparts : ∀ part ∈ parts, ∀ v, part.value v → v.intact = true) :
    ∀ m ∈ members, m.2.intact = true := by
  intro m hm
  by_cases hname : m.1 ∈ parts.map Member.name
  · obtain ⟨part, hpart, heq⟩ := List.mem_map.1 hname
    exact hparts part hpart m.2 (h.value m hm part hpart heq)
  · exact h.other m hm hname

end Json

end StatContract
