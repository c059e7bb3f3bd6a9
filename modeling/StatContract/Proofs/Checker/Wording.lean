import StatContract.Proofs.Checker.Diagnosis

/-!
# The wording of value types

Lists and maps are worded without brackets, so that the types inside of them follow each other
directly. A text that starts with the wording of a type still determines that type and where its
wording ends (`ValueType.text_append_inj`): the first word tells the kind of type, and between the
key and the value of a map stands a word that no type goes on with.

A message about operands of different types therefore shows two different wordings, and its reader
can tell where the first of them ends.
-/

namespace StatContract

namespace ValueType

/-- The wording of a type at the start of a text determines the type and the rest of the text. -/
theorem text_append_inj : ∀ {a b : ValueType} {r s : List Char},
    a.text.toList ++ r = b.text.toList ++ s → a = b ∧ r = s
  | scalar, b, r, s, h => by
      cases b with
      | scalar => exact ⟨rfl, List.append_cancel_left h⟩
      | _ => simp [text] at h
  | matrix, b, r, s, h => by
      cases b with
      | matrix => exact ⟨rfl, List.append_cancel_left h⟩
      | _ => simp [text] at h
  | sequence element, b, r, s, h => by
      cases b with
      | sequence element' =>
          simp only [text, String.toList_append, List.append_assoc,
            List.append_cancel_left_eq] at h
          obtain ⟨rfl, rfl⟩ := text_append_inj h
          exact ⟨rfl, rfl⟩
      | _ => simp [text] at h
  | map key value, b, r, s, h => by
      cases b with
      | map key' value' =>
          simp only [text, String.toList_append, List.append_assoc,
            List.append_cancel_left_eq] at h
          obtain ⟨rfl, hvalue⟩ := text_append_inj h
          obtain ⟨rfl, rfl⟩ := text_append_inj (List.append_cancel_left hvalue)
          exact ⟨rfl, rfl⟩
      | _ => simp [text] at h

theorem eq_of_text_isPrefix {a b : ValueType} (h : a.text.toList <+: b.text.toList) : a = b := by
  obtain ⟨r, hr⟩ := h
  exact (text_append_inj (hr.trans (List.append_nil _).symm)).1

theorem text_inj {a b : ValueType} : a.text = b.text ↔ a = b :=
  ⟨fun h => eq_of_text_isPrefix (h ▸ List.prefix_rfl), congrArg text⟩

/-- Texts before and between two types do not blur their wordings. -/
theorem text_between_inj {a b a' b' : ValueType} {before between : String} :
    before ++ a.text ++ between ++ b.text = before ++ a'.text ++ between ++ b'.text ↔
      a = a' ∧ b = b' := by
  constructor
  · intro h
    have hlist := congrArg String.toList h
    simp only [String.toList_append, List.append_assoc, List.append_cancel_left_eq] at hlist
    obtain ⟨rfl, hrest⟩ := text_append_inj hlist
    exact ⟨rfl, text_inj.1 (String.toList_inj.1 (List.append_cancel_left hrest))⟩
  · rintro ⟨rfl, rfl⟩
    rfl

end ValueType

namespace Specification

variable {spec : Specification} {e : SpecError} {node : String} {l r : ValueType} {span : Span}

theorem Exhibits.operands_ne (h : spec.Exhibits (.operandMismatch node l r span)) : l ≠ r := by
  cases h with
  | site _ hshows =>
      cases hshows with
      | operandMismatch _ _ _ hne => exact hne

/-- The check and the compilation report defects that are there, in the given specification or in
the analysed one. -/
theorem exists_exhibits_of_reported
    (h : spec.check = .error e ∨ ∃ options, spec.compile options = .error e) :
    ∃ spec' : Specification, spec'.Exhibits e := by
  rcases hanalyze : spec.analyze with ⟨spec', e' | d⟩
  · have hends := check_of_analyze_error hanalyze
    have he : e' = e := by
      rcases h with h | ⟨options, h⟩
      · exact Except.error.inj ((hends {}).1.symm.trans h)
      · exact Except.error.inj ((hends options).2.symm.trans h)
    exact ⟨spec, exhibits_of_analyze (he ▸ congrArg Prod.snd hanalyze)⟩
  · refine ⟨spec', ?_⟩
    rcases h with h | ⟨options, h⟩
    · rw [check_of_analyze_ok hanalyze] at h
      cases hdomain : spec'.domainError? with
      | some e' =>
          rw [hdomain] at h
          cases h
          exact exhibits_of_domainError hdomain
      | none =>
          rw [hdomain] at h
          cases h
    · rw [compile_of_analyze_ok hanalyze] at h
      exact exhibits_of_generate (annotated_of_analyze hanalyze) h

end Specification

namespace ValueType

/-- Types have different wordings, none of which starts with another one, and the wording of a map
can be split into a key and a value in only one way. Where operands are reported to differ in type,
the message shows the wordings of exactly their two types, and these wordings are different. -/
theorem text_uniquely_readable :
    (∀ a b : ValueType, a.text = b.text ↔ a = b) ∧
    (∀ a b : ValueType, a.text.toList <+: b.text.toList → a = b) ∧
    (∀ k v k' v' : ValueType,
      (map k v).text = "map from " ++ k'.text ++ " to " ++ v'.text ↔ k = k' ∧ v = v') ∧
    ∀ (spec : Specification) (node : String) (l r : ValueType) (span : Span),
      (spec.check = .error (.operandMismatch node l r span) ∨
        ∃ options, spec.compile options = .error (.operandMismatch node l r span)) →
      l.text ≠ r.text ∧ ∀ a b : ValueType,
        (SpecError.operandMismatch node l r span).message =
          "operand types differ in `" ++ node ++ "`: " ++ a.text ++ " vs " ++ b.text ↔
            l = a ∧ r = b := by
  refine ⟨fun _ _ => text_inj, fun _ _ => eq_of_text_isPrefix, fun _ _ _ _ => text_between_inj,
    fun spec node l r span hreported => ⟨fun h => ?_, fun _ _ => text_between_inj⟩⟩
  obtain ⟨spec', hexhibits⟩ := Specification.exists_exhibits_of_reported hreported
  exact hexhibits.operands_ne (text_inj.1 h)

/-- The map from maps to lists. -/
def mapOfMaps : ValueType := .map (.map .scalar .scalar) (.sequence .scalar)

/-- The map to maps to lists. -/
def mapToMaps : ValueType := .map .scalar (.map .scalar (.sequence .scalar))

/-- The sum of two nested maps, which are worded with the same words in another order. -/
def sumOfMaps : Specification where
  decls := [{ name := "Output", ty := mapOfMaps }, { name := "Input", ty := mapToMaps }]
  time := some (.binary {} (.identifier {} "Output") .add (.identifier {} "Input"))

theorem text_uniquely_readable_sumOfMaps :
    mapOfMaps.text = "map from map from real to real to list of real" ∧
    mapToMaps.text = "map from real to map from real to list of real" ∧
    ¬ mapOfMaps.text.toList <+: mapToMaps.text.toList ∧
    ¬ mapToMaps.text.toList <+: mapOfMaps.text.toList ∧
    ∃ span, sumOfMaps.check = .error (.operandMismatch "Output + Input" mapOfMaps mapToMaps span) ∧
      mapOfMaps.text ≠ mapToMaps.text := by
  have hne : mapOfMaps ≠ mapToMaps := by decide
  obtain ⟨-, hstarts, -, hmessage⟩ := text_uniquely_readable
  refine ⟨rfl, rfl, fun h => hne (hstarts _ _ h), fun h => hne (hstarts _ _ h).symm, _, rfl, ?_⟩
  exact (hmessage sumOfMaps _ _ _ _ (.inl rfl)).1

end ValueType

end StatContract
