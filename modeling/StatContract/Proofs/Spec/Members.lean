import StatContract.Proofs.Spec.Style
import StatContract.Spec.Reader
import Mathlib.Data.List.Nodup

/-!
# Reading the members of an object

What the readers find in an object does not depend on its arrangement. There are two
kinds of readers. One fills a draft, a member at a time (`Read.members`): each name
fills a slot of its own, so at the end a slot is filled when its name was there
(`Read.slot_of_fits`). The other goes over an expression in three rounds, for the
span, for the kind and for the parts that the kind asks for; the parts are then found
under their names (`Read.rounds_of_expression`).
-/

namespace StatContract

open Json

namespace Read

section Members

variable {σ : Type} {field : String → Option (σ → Json → Read σ)} {name : String} {v : Json}
  {seen : List String} {draft draft' : σ} {rest : List (String × Json)}

theorem ne_nameless_of_intact (hv : v.intact = true) : v ≠ .nameless := by
  rintro rfl
  cases hv

theorem members_cons_of_none (hv : v.intact = true) (hfield : field name = none) :
    Read.members field seen draft ((name, v) :: rest) = Read.members field seen draft rest := by
  have hname := ne_nameless_of_intact hv
  simp [Read.members, hfield, skippable_of_intact v hv]

theorem members_cons_of_some {step : σ → Json → Read σ} (hv : v.intact = true)
    (hfield : field name = some step) (hseen : name ∉ seen) (hstep : step draft v = .ok draft') :
    Read.members field seen draft ((name, v) :: rest) =
      Read.members field (name :: seen) draft' rest := by
  have hname := ne_nameless_of_intact hv
  simp [Read.members, hfield, hseen, hstep, bind, Except.bind]

end Members

/-- Reading members one after the other fills a draft. What counts for each is its
name, which tells what it puts into the draft. -/
theorem members_eq_foldl {σ : Type} {field : String → Option (σ → Json → Read σ)}
    {put : String → σ → σ} (hskip : ∀ name, field name = none → ∀ d, put name d = d) :
    ∀ (members : List (String × Json)) (seen : List String) (draft : σ),
      (∀ m ∈ members, m.2.intact = true) →
      (∀ m ∈ members, ∀ step, field m.1 = some step →
        m.1 ∉ seen ∧ ∀ d, step d m.2 = .ok (put m.1 d)) →
      members.Pairwise (fun m m' => m.1 = m'.1 → field m.1 = none) →
      Read.members field seen draft members = .ok (members.foldl (fun d m => put m.1 d) draft)
  | [], _, _, _, _, _ => rfl
  | (name, v) :: rest, seen, draft, hintact, hread, honce => by
      obtain ⟨hfirst, honce⟩ := List.pairwise_cons.1 honce
      obtain ⟨hv, hrest⟩ := List.forall_mem_cons.1 hintact
      obtain ⟨hhead, htail⟩ := List.forall_mem_cons.1 hread
      rw [List.foldl_cons]
      cases hfield : field name with
      | none =>
          rw [members_cons_of_none hv hfield, hskip name hfield]
          exact members_eq_foldl hskip rest seen draft hrest htail honce
      | some step =>
          obtain ⟨hseen, hput⟩ := hhead step hfield
          rw [members_cons_of_some hv hfield hseen (hput draft)]
          refine members_eq_foldl hskip rest (name :: seen) _ hrest (fun m hm step' hm' => ?_) honce
          obtain ⟨hseen', hput'⟩ := htail m hm step' hm'
          refine ⟨fun hmem => ?_, hput'⟩
          rcases List.mem_cons.1 hmem with heq | hmem
          · have hnone : field name = none := hfirst m hm heq.symm
            rw [hfield] at hnone
            cases hnone
          · exact hseen' hmem

/-- The members that a reader knows are the given parts, and a part puts into the draft
what its name says. -/
structure Fills {σ : Type} (field : String → Option (σ → Json → Read σ))
    (put : String → σ → σ) (parts : List Member) : Prop where
  intact : ∀ part ∈ parts, ∀ v, part.value v → v.intact = true
  skip : ∀ name, field name = none → ∀ d, put name d = d
  step : ∀ name step, field name = some step →
    ∃ part ∈ parts, part.name = name ∧ ∀ v, part.value v → ∀ d, step d v = .ok (put name d)

/-- Reading the members of an arrangement, in whatever order they come. -/
theorem Fills.members {σ : Type} {field : String → Option (σ → Json → Read σ)}
    {put : String → σ → σ} {parts : List Member} (h : Fills field put parts)
    {members : List (String × Json)} (hfits : Fits parts members) (draft : σ) :
    Read.members field [] draft members = .ok (members.foldl (fun d m => put m.1 d) draft) := by
  refine members_eq_foldl h.skip members [] draft (hfits.intact h.intact) ?_ (hfits.once.imp ?_)
  · intro m hm step hstep
    obtain ⟨part, hpart, hname, hvalue⟩ := h.step m.1 step hstep
    exact ⟨List.not_mem_nil, hvalue m.2 (hfits.value m hm part hpart hname)⟩
  · intro m m' honce heq
    cases hfield : field m.1 with
    | none => rfl
    | some step =>
        obtain ⟨part, hpart, hname, -⟩ := h.step m.1 step hfield
        exact absurd (List.mem_map.2 ⟨part, hpart, hname⟩) (honce heq)

/-- A slot of the draft that one name fills has been filled when that name was
there. -/
theorem get_foldl_put {σ τ : Type} (get : σ → τ) (put : String → σ → σ) (name : String) {t : τ}
    (hself : ∀ d, get (put name d) = t) (hother : ∀ n d, n ≠ name → get (put n d) = get d) :
    ∀ (members : List (String × Json)) (draft : σ),
      get (members.foldl (fun d m => put m.1 d) draft) =
        if name ∈ members.map Prod.fst then t else get draft
  | [], draft => rfl
  | m :: rest, draft => by
      rw [List.foldl_cons, get_foldl_put get put name hself hother rest, List.map_cons]
      by_cases hrest : name ∈ rest.map Prod.fst
      · rw [if_pos hrest, if_pos (List.mem_cons_of_mem _ hrest)]
      · rw [if_neg hrest]
        by_cases hm : m.1 = name
        · rw [if_pos (hm ▸ List.mem_cons_self), hm, hself]
        · have hnot : name ∉ m.1 :: rest.map Prod.fst := fun h =>
            (List.mem_cons.1 h).elim (Ne.symm hm) hrest
          rw [if_neg hnot, hother m.1 draft hm]

/-- The slot of a part holds its value. A part that may be left out has to have the
value that the slot starts with. -/
theorem slot_of_fits {σ τ : Type} {parts : List Member} {members : List (String × Json)}
    (h : Fits parts members) (get : σ → τ) (put : String → σ → σ) {part : Member}
    (hpart : part ∈ parts) {t : τ} {d : σ} (hself : ∀ d, get (put part.name d) = t)
    (hother : ∀ n d, n ≠ part.name → get (put n d) = get d)
    (hdefault : part.optional → get d = t) :
    get (members.foldl (fun d m => put m.1 d) d) = t := by
  rw [get_foldl_put get put part.name hself hother]
  by_cases hmem : part.name ∈ members.map Prod.fst
  · rw [if_pos hmem]
  · rw [if_neg hmem]
    exact hdefault ((h.present part hpart).resolve_right hmem)

end Read

/-- What reading a member puts into the draft of a span. -/
def Span.Draft.put (s : Span) (name : String) (d : Draft) : Draft where
  start := if name = "start" then some s.start else d.start
  stop := if name = "end" then some s.stop else d.stop

theorem Read.word_nat (n : UInt32) : Read.word (.nat n.toNat) = .ok n := by
  have hlt : n.toNat < UInt32.size := n.toNat_lt
  simp [Read.word, Json.nat, hlt]
  rfl

theorem Span.fills (s : Span) : Read.Fills Draft.field (Draft.put s) s.parts where
  intact := by simp [Span.parts, Json.nat, Json.intact]
  skip name hfield d := by
    unfold Draft.field at hfield
    split at hfield <;> simp_all [Draft.put]
  step name step hfield := by
    unfold Draft.field at hfield
    split at hfield <;> cases hfield
    · refine ⟨_, List.mem_cons_self, rfl, ?_⟩
      rintro v rfl d
      simp [Read.word_nat, Draft.put]
    · refine ⟨_, List.mem_cons_of_mem _ List.mem_cons_self, rfl, ?_⟩
      rintro v rfl d
      simp [Read.word_nat, Draft.put]

theorem Span.ofJson_of_written (origin : Origin) {s : Span} {j : Json} (h : s.Written j) :
    Span.ofJson origin j = .ok s ∧ j.intact = true := by
  obtain ⟨members, rfl, hfits⟩ := h.exists_fits (by simp [Span.parts])
  refine ⟨?_, (membersIntact_iff members).2 (hfits.intact s.fills.intact)⟩
  have hstart := Read.slot_of_fits hfits Draft.start (Draft.put s) (d := {}) (t := some s.start)
    List.mem_cons_self (by simp [Draft.put]) (by intro n d hn; simp [Draft.put, hn]) False.elim
  have hstop := Read.slot_of_fits hfits Draft.stop (Draft.put s) (d := {}) (t := some s.stop)
    (List.mem_cons_of_mem _ List.mem_cons_self) (by simp [Draft.put])
    (by intro n d hn; simp [Draft.put, hn]) False.elim
  rw [Span.ofJson, s.fills.members hfits]
  simp only [bind, Except.bind, hstart, hstop, Read.required, pure, Except.pure]

theorem ValueType.intact_toJson : ∀ ty : ValueType, ty.toJson.intact = true
  | .scalar | .matrix => rfl
  | .sequence element => by simp [toJson, Json.intact, membersIntact, element.intact_toJson]
  | .map key value => by
      simp [toJson, Json.intact, membersIntact, allIntact, key.intact_toJson, value.intact_toJson]

theorem ValueType.ofJson_toJson : ∀ ty : ValueType, ofJson ty.toJson = .ok ty
  | .scalar | .matrix => by simp [toJson, ofJson]; rfl
  | .sequence element => by
      have hname := Read.ne_nameless_of_intact element.intact_toJson
      simp [toJson, ofJson, ofContent, element.ofJson_toJson, bind, Except.bind]
      rfl
  | .map key value => by
      simp [toJson, ofJson, ofContent, key.ofJson_toJson, value.ofJson_toJson, bind, Except.bind]
      rfl

namespace Read

/-- Once the span is found, the rest is only scanned. -/
theorem expressionSpan_some (origin : Origin) (s : Span) : ∀ members : List (String × Json),
    (∀ m ∈ members, m.1 ≠ "span" ∧ m.2.intact = true) →
      expressionSpan origin (some s) members = .ok s
  | [], _ => rfl
  | (name, v) :: rest, h => by
      obtain ⟨⟨hname, hv⟩, hrest⟩ := List.forall_mem_cons.1 h
      rw [expressionSpan, if_neg hname, if_pos hv]
      exact expressionSpan_some origin s rest hrest

/-- The span of an expression is the one that is written, or none is written and it
names no place. -/
theorem expressionSpan_eq (origin : Origin) (s : Span) : ∀ members : List (String × Json),
    (∀ m ∈ members, m.2.intact = true) → (∀ m ∈ members, m.1 = "span" → s.Written m.2) →
    members.Pairwise (fun m m' => m.1 = m'.1 → m.1 ≠ "span") →
    (s = .dummy ∨ "span" ∈ members.map Prod.fst) →
      expressionSpan origin none members = .ok s
  | [], _, _, _, hpresent => by
      rw [expressionSpan, hpresent.resolve_right List.not_mem_nil]
      rfl
  | (name, v) :: rest, hintact, hwritten, honce, hpresent => by
      obtain ⟨hfirst, honce⟩ := List.pairwise_cons.1 honce
      obtain ⟨hv, hrest⟩ := List.forall_mem_cons.1 hintact
      obtain ⟨hspan, hwritten⟩ := List.forall_mem_cons.1 hwritten
      by_cases hname : name = "span"
      · rw [expressionSpan, if_pos hname, (Span.ofJson_of_written origin (hspan hname)).1]
        refine expressionSpan_some origin s rest fun m hm => ⟨fun heq => ?_, hrest m hm⟩
        exact hfirst m hm (hname.trans heq.symm) hname
      · rw [expressionSpan, if_neg hname, if_pos hv]
        refine expressionSpan_eq origin s rest hrest hwritten honce ?_
        exact hpresent.imp_right fun hmem => (List.mem_cons.1 hmem).resolve_left (Ne.symm hname)

section Kind

variable {κ : Type} {slug : κ → String} {all : List κ} {k : κ}

theorem expressionKind_some : ∀ members : List (String × Json), (∀ m ∈ members, m.1 ≠ "kind") →
    expressionKind slug all (some k) members = .ok k
  | [], _ => rfl
  | (name, v) :: rest, h => by
      obtain ⟨hname, hrest⟩ := List.forall_mem_cons.1 h
      rw [expressionKind, if_neg hname]
      exact expressionKind_some rest hrest

/-- The kind of an expression is the one that is written. -/
theorem expressionKind_eq (hfind : all.find? (slug · == slug k) = some k) :
    ∀ members : List (String × Json), (∀ m ∈ members, m.1 = "kind" → m.2 = .string (slug k)) →
    members.Pairwise (fun m m' => m.1 = m'.1 → m.1 ≠ "kind") →
    "kind" ∈ members.map Prod.fst → expressionKind slug all none members = .ok k
  | [], _, _, hpresent => absurd hpresent List.not_mem_nil
  | (name, v) :: rest, hwritten, honce, hpresent => by
      obtain ⟨hfirst, honce⟩ := List.pairwise_cons.1 honce
      obtain ⟨hkind, hwritten⟩ := List.forall_mem_cons.1 hwritten
      by_cases hname : name = "kind"
      · obtain rfl : v = .string (slug k) := hkind hname
        have hk : kind slug all (.string (slug k)) = .ok k := by
          rw [kind, hfind]
          rfl
        rw [expressionKind, if_pos hname, hk]
        refine expressionKind_some rest fun m hm heq => ?_
        exact hfirst m hm (hname.trans heq.symm) hname
      · rw [expressionKind, if_neg hname]
        exact expressionKind_eq hfind rest hwritten honce
          ((List.mem_cons.1 hpresent).resolve_left (Ne.symm hname))

end Kind

/-- Reads the value of a member of the given kind. -/
def fieldOf (kind : FieldKind) (v : Json) : Read Field :=
  match kind with
  | .text => .text <$> text v
  | .clause => .clause <$> clause .scanned v
  | .term => .term <$> term .scanned v
  | .terms => match v with
    | .array items => .terms <$> terms items
    | v => unexpected v "a sequence"
  | .ranges => match v with
    | .array items => .ranges <$> ranges items
    | v => unexpected v "a sequence"
  | .cmpOp => .cmpOp <$> variant CmpOp.spellings v
  | .arithOp => .arithOp <$> variant ArithOp.spellings v
  | .logicOp => .logicOp <$> variant LogicOp.spellings v
  | .rangeMode => .rangeMode <$> variant RangeMode.spellings v
  | .span => .span <$> Span.ofJson .scanned v

theorem fields_cons_of_none {schema : Schema} {name : String} (h : schema.lookup name = none)
    (fs : Fields) (v : Json) (rest : List (String × Json)) :
    fields schema fs ((name, v) :: rest) = fields schema fs rest := by
  rw [fields, h]

theorem fields_cons_of_some {schema : Schema} {name : String} {kind : FieldKind}
    (h : schema.lookup name = some kind) {fs : Fields} (hfs : fs.lookup name = none) (v : Json)
    (rest : List (String × Json)) :
    fields schema fs ((name, v) :: rest) =
      (do let f ← fieldOf kind v; fields schema ((name, f) :: fs) rest) := by
  rw [fields, h]
  simp only [hfs, Option.isSome_none, Bool.false_eq_true, if_false]
  cases kind <;> first | rfl | (cases v <;> rfl)

/-- Reading parts one after the other collects their contents. What is found under a
name afterwards is what its member holds. -/
theorem exists_fields (schema : Schema) {P : String → Field → Prop} :
    ∀ (members : List (String × Json)) (found : Fields),
    (∀ m ∈ members, ∀ kind, schema.lookup m.1 = some kind →
      found.lookup m.1 = none ∧ ∃ f, fieldOf kind m.2 = .ok f ∧ P m.1 f) →
    members.Pairwise (fun m m' => m.1 = m'.1 → schema.lookup m.1 = none) →
    ∃ fs, fields schema found members = .ok fs ∧
      ∀ name, (name ∈ members.map Prod.fst → (schema.lookup name).isSome = true →
          ∃ f, fs.lookup name = some f ∧ P name f) ∧
        (name ∉ members.map Prod.fst → fs.lookup name = found.lookup name)
  | [], found, _, _ => by
      refine ⟨found, by rw [fields]; rfl, fun name => ⟨fun hmem => ?_, fun _ => rfl⟩⟩
      exact absurd hmem List.not_mem_nil
  | (name, v) :: rest, found, hread, honce => by
      obtain ⟨hfirst, honce⟩ := List.pairwise_cons.1 honce
      obtain ⟨hhead, htail⟩ := List.forall_mem_cons.1 hread
      cases hkind : schema.lookup name with
      | none =>
          obtain ⟨fs, hfs, hlookup⟩ := exists_fields schema rest found htail honce
          refine ⟨fs, by rw [fields_cons_of_none hkind, hfs], fun n => ⟨?_, fun hnot => ?_⟩⟩
          · intro hmem hknown
            rcases List.mem_cons.1 hmem with rfl | hmem
            · rw [hkind] at hknown
              cases hknown
            · exact (hlookup n).1 hmem hknown
          · exact (hlookup n).2 fun hmem => hnot (List.mem_cons_of_mem _ hmem)
      | some kind =>
          obtain ⟨hnone, f, hf, hP⟩ := hhead kind hkind
          -- The name of this member is not among the others, so its content stays.
          have hother : ∀ m ∈ rest, m.1 ≠ name := by
            intro m hm heq
            have hnone : schema.lookup name = none := hfirst m hm heq.symm
            rw [hkind] at hnone
            cases hnone
          have htail' : ∀ m ∈ rest, ∀ kind, schema.lookup m.1 = some kind →
              ((name, f) :: found).lookup m.1 = none ∧ ∃ f, fieldOf kind m.2 = .ok f ∧ P m.1 f := by
            intro m hm k hk
            obtain ⟨hnone, hread⟩ := htail m hm k hk
            have hne : (m.1 == name) = false := by simpa using hother m hm
            exact ⟨by rw [List.lookup_cons, hne]; exact hnone, hread⟩
          obtain ⟨fs, hfs, hlookup⟩ := exists_fields schema rest ((name, f) :: found) htail' honce
          have hnot : name ∉ rest.map Prod.fst := by
            intro hmem
            obtain ⟨m, hm, heq⟩ := List.mem_map.1 hmem
            exact hother m hm heq
          refine ⟨fs, ?_, fun n => ⟨fun hmem hknown => ?_, fun hn => ?_⟩⟩
          · rw [fields_cons_of_some hkind hnone, hf]
            exact hfs
          · rcases List.mem_cons.1 hmem with rfl | hmem
            · refine ⟨f, ?_, hP⟩
              rw [(hlookup _).2 hnot, List.lookup_cons_self]
            · exact (hlookup n).1 hmem hknown
          · have hne : (n == name) = false := by
              have : n ≠ name := fun heq => hn (heq ▸ List.mem_cons_self)
              simpa using this
            rw [(hlookup n).2 fun hmem => hn (List.mem_cons_of_mem _ hmem), List.lookup_cons, hne]

/-- A part of an expression: what may be written for it is read as its content. -/
structure Part extends Member where
  kind : FieldKind
  content : Field
  reads : ∀ v, value v → fieldOf kind v = .ok content ∧ v.intact = true

/-- The contents of the parts are found under their names. -/
theorem exists_fields_of_fits {written : List Member} {members : List (String × Json)}
    (h : Fits written members) (parts : List Part)
    (hnames : (parts.map fun p => p.name).Nodup) (hparts : ∀ p ∈ parts, p.toMember ∈ written) :
    ∃ fs, fields (parts.map fun p => (p.name, p.kind)) [] members = .ok fs ∧
      ∀ p ∈ parts, fs.lookup p.name = some p.content ∨ p.optional ∧ fs.lookup p.name = none := by
  have hschema : ∀ name kind, (parts.map fun p => (p.name, p.kind)).lookup name = some kind →
      ∃ p ∈ parts, p.name = name ∧ p.kind = kind := by
    intro name kind hlookup
    obtain ⟨before, after, heq, -⟩ := List.lookup_eq_some_iff.1 hlookup
    have hmem : (name, kind) ∈ parts.map fun p => (p.name, p.kind) := heq ▸ by simp
    obtain ⟨p, hp, hpair⟩ := List.mem_map.1 hmem
    exact ⟨p, hp, congrArg Prod.fst hpair, congrArg Prod.snd hpair⟩
  obtain ⟨fs, hfs, hlookup⟩ := exists_fields (parts.map fun p => (p.name, p.kind))
    (P := fun name f => ∃ p ∈ parts, p.name = name ∧ f = p.content) members []
    (by
      intro m hm kind hkind
      obtain ⟨p, hp, hname, rfl⟩ := hschema m.1 kind hkind
      have hvalue := h.value m hm p.toMember (hparts p hp) hname
      exact ⟨rfl, p.content, (p.reads m.2 hvalue).1, p, hp, hname, rfl⟩)
    (h.once.imp (by
      intro m m' honce heq
      cases hkind : (parts.map fun p => (p.name, p.kind)).lookup m.1 with
      | none => rfl
      | some kind =>
          obtain ⟨p, hp, hname, -⟩ := hschema m.1 kind hkind
          exact absurd (List.mem_map.2 ⟨p.toMember, hparts p hp, hname⟩) (honce heq)))
  refine ⟨fs, hfs, fun p hp => ?_⟩
  by_cases hmem : p.name ∈ members.map Prod.fst
  · have hknown : ((parts.map fun p => (p.name, p.kind)).lookup p.name).isSome = true :=
      List.lookup_isSome_iff.2 ⟨(p.name, p.kind), List.mem_map.2 ⟨p, hp, rfl⟩, by simp⟩
    obtain ⟨f, hf, q, hq, hname, rfl⟩ := (hlookup p.name).1 hmem hknown
    obtain rfl := List.inj_on_of_nodup_map hnames hq hp hname
    exact .inl hf
  · exact .inr ⟨(h.present _ (hparts p hp)).resolve_right hmem, (hlookup p.name).2 hmem⟩

/-- The three rounds over an expression object, in whatever style it is written. -/
theorem rounds_of_expression (origin : Origin) {κ : Type} {slug : κ → String} {all : List κ} {k : κ}
    (hfind : all.find? (slug · == slug k) = some k) {parts : List Part} {span : Span} {j : Json}
    (h : Expression (slug k) (parts.map Part.toMember) span j)
    (hnames : ("kind" :: (parts.map (fun p => p.name) ++ ["span"])).Nodup)
    (hrequired : ∀ p ∈ parts, ¬ p.optional) :
    j.intact = true ∧ ∃ members fs, j = .object members ∧
      expressionSpan origin none members = .ok span ∧
      expressionKind slug all none members = .ok k ∧
      fields (parts.map fun p => (p.name, p.kind)) [] members = .ok fs ∧
      ∀ p ∈ parts, fs.lookup p.name = some p.content := by
  have hwritten : (expressionParts (slug k) (parts.map Part.toMember) span).map Member.name =
      "kind" :: (parts.map (fun p => p.name) ++ ["span"]) := by
    simp [expressionParts, Span.member]
  obtain ⟨members, rfl, hfits⟩ := h.exists_fits (by rw [hwritten]; exact hnames)
  have hkind : (⟨"kind", TextOf (slug k), False⟩ : Member) ∈
      expressionParts (slug k) (parts.map Part.toMember) span := List.mem_cons_self
  have hspan : span.member ∈ expressionParts (slug k) (parts.map Part.toMember) span := by
    simp [expressionParts]
  have hintact : ∀ m ∈ members, m.2.intact = true := by
    refine hfits.intact fun part hpart v hv => ?_
    rcases List.mem_cons.1 hpart with rfl | hpart
    · rw [show v = .string (slug k) from hv]
      rfl
    · rcases List.mem_append.1 hpart with hpart | hpart
      · obtain ⟨p, -, rfl⟩ := List.mem_map.1 hpart
        exact (p.reads v hv).2
      · obtain rfl := List.mem_singleton.1 hpart
        exact (Span.ofJson_of_written origin hv).2
  -- Names of the object itself are there once; only unknown members can come twice.
  have honce : ∀ name ∈ "kind" :: (parts.map (fun p => p.name) ++ ["span"]),
      members.Pairwise fun m m' => m.1 = m'.1 → m.1 ≠ name := by
    intro name hname
    refine hfits.once.imp fun honce heq hm => honce heq ?_
    rw [hwritten, hm]
    exact hname
  obtain ⟨fs, hfs, hcontents⟩ := exists_fields_of_fits hfits parts
    (List.nodup_append.1 (List.nodup_cons.1 hnames).2).1
    (fun p hp => List.mem_cons_of_mem _ (List.mem_append_left _ (List.mem_map_of_mem hp)))
  refine ⟨(membersIntact_iff members).2 hintact, members, fs, rfl, ?_, ?_, hfs, fun p hp => ?_⟩
  · refine expressionSpan_eq origin span members hintact (fun m hm hname => ?_)
      (honce "span" (by simp)) (hfits.present _ hspan)
    exact hfits.value m hm _ hspan hname.symm
  · refine expressionKind_eq hfind members (fun m hm hname => ?_) (honce "kind" (by simp)) ?_
    · exact hfits.value m hm _ hkind hname.symm
    · exact (hfits.present _ hkind).resolve_left id
  · exact (hcontents p hp).resolve_right fun hoptional => hrequired p hp hoptional.1

/-- A clause object is read as the clause that its parts make up. -/
theorem clause_of_expression (origin : Origin) (kind : ClauseKind) (parts : List Part)
    {span : Span} {c : Clause} {j : Json}
    (hschema : kind.schema = parts.map fun p => (p.name, p.kind))
    (hrequired : ∀ p ∈ parts, ¬ p.optional)
    (hbuild : ∀ fs : Fields, (∀ p ∈ parts, fs.lookup p.name = some p.content) →
      kind.build span fs = .ok c)
    (h : Expression kind.slug (parts.map Part.toMember) span j) :
    clause origin j = .ok c ∧ j.intact = true := by
  have hnames : ("kind" :: (kind.schema.map Prod.fst ++ ["span"])).Nodup := by
    cases kind <;> simp [ClauseKind.schema]
  have hfind : ClauseKind.all.find? (ClauseKind.slug · == kind.slug) = some kind := by
    cases kind <;> decide
  rw [hschema, List.map_map] at hnames
  obtain ⟨hintact, members, fs, rfl, hspan, hkind, hfs, hcontents⟩ :=
    rounds_of_expression origin hfind h hnames hrequired
  refine ⟨?_, hintact⟩
  rw [← hschema] at hfs
  simp only [clause, hspan, hkind, hfs, bind, Except.bind]
  exact hbuild fs hcontents

/-- A term object is read as the term that its parts make up. -/
theorem term_of_expression (origin : Origin) (kind : TermKind) (parts : List Part)
    {span : Span} {t : Term} {j : Json}
    (hschema : kind.schema = parts.map fun p => (p.name, p.kind))
    (hrequired : ∀ p ∈ parts, ¬ p.optional)
    (hbuild : ∀ fs : Fields, (∀ p ∈ parts, fs.lookup p.name = some p.content) →
      kind.build span fs = .ok t)
    (h : Expression kind.slug (parts.map Part.toMember) span j) :
    term origin j = .ok t ∧ j.intact = true := by
  have hnames : ("kind" :: (kind.schema.map Prod.fst ++ ["span"])).Nodup := by
    cases kind <;> simp [TermKind.schema]
  have hfind : TermKind.all.find? (TermKind.slug · == kind.slug) = some kind := by
    cases kind with
    | probability trials | expectation trials => cases trials <;> decide
    | _ => decide
  rw [hschema, List.map_map] at hnames
  obtain ⟨hintact, members, fs, rfl, hspan, hkind, hfs, hcontents⟩ :=
    rounds_of_expression origin hfind h hnames hrequired
  refine ⟨?_, hintact⟩
  rw [← hschema] at hfs
  simp only [term, hspan, hkind, hfs, bind, Except.bind]
  exact hbuild fs hcontents

namespace Part

/-- A part whose content is read as one value. -/
def ofValue {α : Type} (name : String) (kind : FieldKind) {wrap : α → Field}
    {read : Json → Read α} (hfield : ∀ v, fieldOf kind v = wrap <$> read v)
    {written : Json → Prop} {a : α}
    (h : ∀ v, written v → read v = .ok a ∧ v.intact = true) : Part where
  name := name
  value := written
  kind := kind
  content := wrap a
  reads v hv := by
    obtain ⟨hread, hintact⟩ := h v hv
    refine ⟨?_, hintact⟩
    rw [hfield, hread]
    rfl

/-- A part whose content is an array of values. -/
def ofArray {α : Type} (name : String) (kind : FieldKind) {wrap : List α → Field}
    {read : List Json → Read (List α)} (hfield : ∀ vs, fieldOf kind (.array vs) = wrap <$> read vs)
    {written : List Json → Prop} {as : List α}
    (h : ∀ vs, written vs → read vs = .ok as ∧ allIntact vs = true) : Part where
  name := name
  value := ArrayOf written
  kind := kind
  content := wrap as
  reads v hv := by
    obtain ⟨vs, rfl, hvs⟩ := hv
    obtain ⟨hread, hintact⟩ := h vs hvs
    refine ⟨?_, hintact⟩
    rw [hfield, hread]
    rfl

/-- The span, which may be left out. -/
def ofSpan (s : Span) : Part where
  toMember := s.member
  kind := .span
  content := .span s
  reads v hv := by
    obtain ⟨hread, hintact⟩ := Span.ofJson_of_written .scanned hv
    refine ⟨?_, hintact⟩
    rw [fieldOf, hread]
    rfl

end Part

theorem text_of_textOf (s : String) : ∀ v, TextOf s v → text v = .ok s ∧ v.intact = true := by
  rintro v rfl
  exact ⟨rfl, rfl⟩

theorem cmpOp_of_textOf (op : CmpOp) : ∀ v, TextOf op.symbol v →
    variant CmpOp.spellings v = .ok op ∧ v.intact = true := by
  rintro v rfl
  cases op <;> exact ⟨rfl, rfl⟩

theorem logicOp_of_textOf (op : LogicOp) : ∀ v, TextOf op.symbol v →
    variant LogicOp.spellings v = .ok op ∧ v.intact = true := by
  rintro v rfl
  cases op <;> exact ⟨rfl, rfl⟩

theorem rangeMode_of_textOf (mode : RangeMode) : ∀ v, TextOf mode.slug v →
    variant RangeMode.spellings v = .ok mode ∧ v.intact = true := by
  rintro v rfl
  cases mode <;> exact ⟨rfl, rfl⟩

theorem arithOp_of_written (op : ArithOp) : ∀ v, op.Written v →
    variant ArithOp.spellings v = .ok op ∧ v.intact = true := by
  rintro v (rfl | ⟨rfl, rfl⟩)
  · cases op <;> exact ⟨rfl, rfl⟩
  · exact ⟨rfl, rfl⟩

/-- A range object is read as its parts. -/
theorem range_of_arranged {span : Span} {var : String} {collection : Term} {mode : RangeMode}
    {written : Json → Prop}
    (hcollection : ∀ v, written v → term .scanned v = .ok collection ∧ v.intact = true) {j : Json}
    (h : Arranged [⟨"var", TextOf var, False⟩, ⟨"collection", written, False⟩,
      ⟨"mode", TextOf mode.slug, False⟩, span.member] j) :
    range j = .ok (.mk span var collection mode) ∧ j.intact = true := by
  let parts : List Part := [.ofValue "var" .text (fun _ => rfl) (text_of_textOf var),
    .ofValue "collection" .term (fun _ => rfl) hcollection,
    .ofValue "mode" .rangeMode (fun _ => rfl) (rangeMode_of_textOf mode), .ofSpan span]
  have hparts : parts.map Part.toMember = [⟨"var", TextOf var, False⟩,
    ⟨"collection", written, False⟩, ⟨"mode", TextOf mode.slug, False⟩, span.member] := rfl
  rw [← hparts] at h
  obtain ⟨members, rfl, hfits⟩ := h.exists_fits (by simp [hparts, Span.member])
  obtain ⟨fs, hfs, hcontents⟩ := exists_fields_of_fits hfits parts
    (by simp [parts, Part.ofValue, Part.ofSpan, Span.member]) (fun p hp => List.mem_map_of_mem hp)
  have hintact : ∀ m ∈ members, m.2.intact = true := hfits.intact fun part hpart v hv => by
    obtain ⟨p, -, rfl⟩ := List.mem_map.1 hpart
    exact (p.reads v hv).2
  refine ⟨?_, (membersIntact_iff members).2 hintact⟩
  have hschema : fields rangeSchema [] members = .ok fs := hfs
  have hspan : fs.span = span := by
    have hfound : fs.lookup "span" = some (.span span) ∨
      span = .dummy ∧ fs.lookup "span" = none := hcontents (.ofSpan span) (by simp [parts])
    rcases hfound with hfound | ⟨hdummy, hfound⟩
    · rw [Fields.span, hfound]
    · rw [Fields.span, hfound, hdummy]
  simp [parts, Part.ofValue, Part.ofSpan] at hcontents
  obtain ⟨hvar, hcollection, hmode, -⟩ := hcontents
  rw [range, hschema]
  simp [Range.build, Fields.text, Fields.term, Fields.rangeMode, hvar, hcollection, hmode, hspan,
    bind, Except.bind, pure, Except.pure]

end Read

end StatContract
